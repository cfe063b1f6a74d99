import Fluo.Mongoose.Boundaries

/-!
# Boundaries are balanced

Every session is ended once, after its transaction and after the callbacks that
the boundary awaits. While no request boundary outlives the active session that is
to untrack it, nothing stays tracked once no boundary is in flight.
-/

namespace Fluo.Mongoose.Boundaries

/-- What a boundary has done with its session, by what it awaits. -/
def Call.Valid (c : Call) : Prop :=
  match c.work with
  | .starting => c.obtained = false ∧ c.ended = 0 ∧ c.transaction = .unstarted
  | .native => c.obtained = false ∧ c.ended = 0 ∧ c.mode = .connection
  | .running => c.ended = 0 ∧ (c.obtained = true ↔ c.mode = .manual)
  | .beginning => c.obtained = true ∧ c.ended = 0 ∧ c.transaction = .unstarted ∧ c.mode = .manual
  | .committing | .aborting => c.obtained = true ∧ c.ended = 0
  | .closing | .ending => c.obtained = true ∧ c.ended = 1 ∧ c.transaction ≠ .started
  | .finishing | .done =>
    (c.obtained = true → c.ended = 1 ∧ c.transaction ≠ .started) ∧ (c.obtained = false → c.ended = 0)

/-- A nested boundary runs until it has settled. -/
def Call.Prompt (c : Call) : Prop :=
  ∀ scope, c.mode = .nested scope → (c.settled = false ∧ c.work = .running) ∨ (c.settled = true ∧ c.work = .done)

def Call.Root (c : Call) : Prop := ∀ scope, c.mode ≠ .nested scope

structure Inv (calls : List Call) : Prop where
  valid : ∀ c ∈ calls, c.Valid
  prompt : ∀ c ∈ calls, c.Prompt
  nested : ∀ c ∈ calls, c.awaitedBy ≠ none → ∃ scope, c.mode = .nested scope
  awaited : ∀ c ∈ calls, ∀ p, c.awaitedBy = some p → c.settled = false →
    ∃ d, calls[p]? = some d ∧ d.work = .running
  rooted : ∀ c ∈ calls, ∀ scope, c.mode = .nested scope → ∃ root, calls[scope]? = some root ∧ root.Root

/-- What a step may make of a call whose awaited boundaries have settled or not. -/
structure Call.Becomes (resolved : Bool) (c c' : Call) : Prop where
  mode : c'.mode = c.mode
  awaitedBy : c'.awaitedBy = c.awaitedBy
  settled : c.settled = true → c'.settled = true
  valid : c.Valid → c'.Valid
  prompt : c.Prompt → c'.Prompt
  running : c.work = .running → c'.work = .running ∨ resolved = true

variable {options : Options} {s t : System} {calls : List Call} {index : Nat} {c c' : Call} {f : Call → Call}

theorem mem_modify (here : calls[index]? = some c) {d : Call} (mem : d ∈ calls.modify index f) :
    d ∈ calls ∨ d = f c := by
  obtain ⟨j, bound, rfl⟩ := List.mem_iff_getElem.mp mem
  rw [List.getElem_modify]
  rw [List.length_modify] at bound
  split
  next same =>
    subst same
    obtain ⟨_, rfl⟩ := List.getElem?_eq_some_iff.mp here
    exact .inr rfl
  next => exact .inl (List.getElem_mem bound)

theorem getElem?_modify_self (here : calls[index]? = some c) : (calls.modify index f)[index]? = some (f c) := by
  simp [here]

theorem modify_inv (h : Inv calls) (here : calls[index]? = some c)
    (becomes : c.Becomes (calls.all fun c => c.awaitedBy ≠ some index || c.settled) (f c)) :
    Inv (calls.modify index f) := by
  have mem := List.mem_of_getElem? here
  have awaits : ∀ d ∈ calls, ∀ p, d.awaitedBy = some p → d.settled = false →
      ∃ e, (calls.modify index f)[p]? = some e ∧ e.work = .running := by
    intro d listed p awaited unsettled
    obtain ⟨e, at_, running⟩ := h.awaited d listed p awaited unsettled
    by_cases same : index = p
    · subst same
      obtain rfl : c = e := Option.some.inj (here.symm.trans at_)
      refine ⟨f c, getElem?_modify_self here, (becomes.running running).resolve_right fun resolved => ?_⟩
      have settled := List.all_eq_true.mp resolved d listed
      simp [awaited, unsettled] at settled
    · exact ⟨e, by simp [same, at_], running⟩
  have roots : ∀ d ∈ calls, ∀ scope, d.mode = .nested scope →
      ∃ root, (calls.modify index f)[scope]? = some root ∧ root.Root := by
    intro d listed scope nested
    obtain ⟨root, at_, flat⟩ := h.rooted d listed scope nested
    by_cases same : index = scope
    · subst same
      obtain rfl : c = root := Option.some.inj (here.symm.trans at_)
      exact ⟨f c, getElem?_modify_self here, fun other => becomes.mode ▸ flat other⟩
    · exact ⟨root, by simp [same, at_], flat⟩
  refine ⟨fun d listed => ?_, fun d listed => ?_, fun d listed awaited => ?_, fun d listed p awaited unsettled => ?_,
    fun d listed scope nested => ?_⟩ <;>
    rcases mem_modify here listed with old | rfl
  · exact h.valid d old
  · exact becomes.valid (h.valid c mem)
  · exact h.prompt d old
  · exact becomes.prompt (h.prompt c mem)
  · exact h.nested d old awaited
  · rw [becomes.awaitedBy] at awaited
    rw [becomes.mode]
    exact h.nested c mem awaited
  · exact awaits d old p awaited unsettled
  · rw [becomes.awaitedBy] at awaited
    refine awaits c mem p awaited ?_
    by_contra settled
    rw [becomes.settled (by simpa using settled)] at unsettled
    cases unsettled
  · exact roots d old scope nested
  · exact roots c mem scope (becomes.mode ▸ nested)

theorem append_inv (h : Inv calls) (valid : c.Valid) (prompt : c.Prompt)
    (nested : c.awaitedBy ≠ none → ∃ scope, c.mode = .nested scope)
    (awaited : ∀ p, c.awaitedBy = some p → ∃ d, calls[p]? = some d ∧ d.work = .running)
    (rooted : ∀ scope, c.mode = .nested scope → ∃ root, calls[scope]? = some root ∧ root.Root) :
    Inv (calls ++ [c]) := by
  have stays : ∀ {p : Nat} {d : Call}, calls[p]? = some d → (calls ++ [c])[p]? = some d := by
    intro p d at_
    rw [List.getElem?_append_left (List.getElem?_eq_some_iff.mp at_).1, at_]
  refine ⟨fun d mem => ?_, fun d mem => ?_, fun d mem => ?_, fun d mem p awaits unsettled => ?_,
    fun d mem scope nested => ?_⟩ <;>
    rcases List.mem_append.mp mem with old | new
  · exact h.valid d old
  · exact List.mem_singleton.mp new ▸ valid
  · exact h.prompt d old
  · exact List.mem_singleton.mp new ▸ prompt
  · exact h.nested d old
  · exact List.mem_singleton.mp new ▸ nested
  · obtain ⟨e, at_, running⟩ := h.awaited d old p awaits unsettled
    exact ⟨e, stays at_, running⟩
  · rw [List.mem_singleton.mp new] at awaits
    obtain ⟨e, at_, running⟩ := awaited p awaits
    exact ⟨e, stays at_, running⟩
  · obtain ⟨root, at_, flat⟩ := h.rooted d old scope nested
    exact ⟨root, stays at_, flat⟩
  · rw [List.mem_singleton.mp new] at nested
    obtain ⟨root, at_, flat⟩ := rooted scope nested
    exact ⟨root, stays at_, flat⟩

/-! ## Steps of a call -/

theorem becomes_inv (h : Inv s.calls) (here : s.calls[index]? = some c) (becomes : c.Becomes (s.resolved index) (f c)) :
    Inv (s.modify index f).calls :=
  modify_inv h here becomes

theorem becomes_done (resolved : c.work ≠ .running ∨ s.resolved index = true) (retained : List Nat)
    (ready : c.Valid → ({ c with work := .done } : Call).Valid) :
    c.Becomes (s.resolved index) { c with work := .done, settled := true, retained := retained } where
  mode := rfl
  awaitedBy := rfl
  settled := fun _ => rfl
  valid := ready
  prompt := fun _ _ _ => .inr ⟨rfl, rfl⟩
  running := fun running => .inr (resolved.resolve_left fun idle => idle running)

theorem finish_inv (h : Inv s.calls) (here : s.calls[index]? = some c)
    (resolved : c.work ≠ .running ∨ s.resolved index = true)
    (ready : c.Valid → ({ c with work := .done } : Call).Valid) : Inv (s.finish index c).calls :=
  modify_inv (f := fun c => { c with work := .done, settled := true, retained := [] }) h here
    (becomes_done resolved [] ready)

/-- A step of a boundary that is not nested, or waits for other than its callback. -/
theorem becomes_work (mode : c'.mode = c.mode) (awaitedBy : c'.awaitedBy = c.awaitedBy) (settled : c'.settled = c.settled)
    (valid : c.Valid → c'.Valid) (flat : ∀ scope, c.mode = .nested scope → c.work ≠ .running ∧ c.work ≠ .done)
    (running : c.work = .running → s.resolved index = true) : c.Becomes (s.resolved index) c' where
  mode := mode
  awaitedBy := awaitedBy
  settled := fun old => settled.trans old
  valid := valid
  prompt prompt scope nested := by
    rw [mode] at nested
    obtain ⟨idle, busy⟩ := flat scope nested
    rcases prompt scope nested with ⟨_, running⟩ | ⟨_, done⟩
    · exact absurd running idle
    · exact absurd done busy
  running := fun runs => .inr (running runs)

theorem becomes_same {resolved : Bool} (mode : c'.mode = c.mode) (awaitedBy : c'.awaitedBy = c.awaitedBy)
    (settled : c'.settled = c.settled) (work : c'.work = c.work) (valid : c.Valid → c'.Valid) : c.Becomes resolved c' where
  mode := mode
  awaitedBy := awaitedBy
  settled := fun old => settled.trans old
  valid := valid
  prompt prompt scope nested := by
    rw [settled, work]
    exact prompt scope (mode ▸ nested)
  running := fun running => .inl (work.trans running)

theorem abort_inv (h : Inv s.calls) (here : s.calls[index]? = some c) : Inv (s.abort index c).calls := by
  have aborted : Inv (s.modify index fun c => { c with aborted := true }).calls :=
    becomes_inv h here (becomes_same rfl rfl rfl rfl id)
  have rejects (flat : ∀ scope, c.mode ≠ .nested scope) :
      Inv ((s.modify index fun c => { c with aborted := true }).modify index fun c => { c with settled := true }).calls :=
    becomes_inv (c := { c with aborted := true }) aborted (getElem?_modify_self here)
      ⟨rfl, rfl, fun _ => rfl, id, fun _ scope nested => absurd nested (flat scope), .inl⟩
  unfold System.abort
  dsimp only
  split
  next starting =>
    refine rejects fun scope nested => ?_
    rcases h.prompt c (List.mem_of_getElem? here) scope nested with ⟨_, running⟩ | ⟨_, done⟩
    · exact absurd (starting.symm.trans running) nofun
    · exact absurd (starting.symm.trans done) nofun
  next =>
    split
    next native => exact rejects fun scope nested => absurd (native.1.symm.trans nested) nofun
    next => exact aborted

theorem finishNested_inv {scope : Nat} (h : Inv s.calls) (here : s.calls[index]? = some c)
    (nested : c.mode = .nested scope) (resolved : s.resolved index = true) : Inv (s.finishNested index c scope).calls := by
  have running : Inv (s.modify index fun c => { c with work := .done, settled := true }).calls := by
    refine becomes_inv h here (becomes_done (.inr resolved) c.retained fun valid => ?_)
    rcases h.prompt c (List.mem_of_getElem? here) scope nested with ⟨_, running⟩ | ⟨_, done⟩
    · simp only [Call.Valid, running] at valid
      simp only [Call.Valid]
      simp_all
    · exact done ▸ valid
  unfold System.finishNested
  dsimp only
  split
  · cases root : (s.modify index fun c => { c with work := .done, settled := true }).calls[scope]? with
    | none =>
      have same : ((s.modify index fun c => { c with work := .done, settled := true }).modify scope fun root =>
          { root with retained := index :: root.retained }).calls =
          (s.modify index fun c => { c with work := .done, settled := true }).calls :=
        List.modify_eq_self (List.getElem?_eq_none_iff.mp root)
      exact same ▸ running
    | some r => exact becomes_inv running root (becomes_same rfl rfl rfl rfl id)
  · exact running

/-- A step of a call that awaits other than its callback. -/
theorem modify_work_inv (h : Inv s.calls) (here : s.calls[index]? = some c) (mode : (f c).mode = c.mode)
    (awaitedBy : (f c).awaitedBy = c.awaitedBy) (settled : (f c).settled = c.settled) (valid : c.Valid → (f c).Valid)
    (idle : c.work ≠ .running) (busy : c.work ≠ .done) : Inv (s.modify index f).calls :=
  becomes_inv h here
    (becomes_work mode awaitedBy settled valid (fun _ _ => ⟨idle, busy⟩) fun running => absurd running idle)

theorem callStep_inv {e : CallEvent} (h : Inv s.calls) (here : s.calls[index]? = some c)
    (stays : callStep options s index c e = some t) : Inv t.calls := by
  cases e with
  | session fulfilled =>
    simp only [callStep, Option.ite_none_right_eq_some] at stays
    obtain ⟨starting, stays⟩ := stays
    have idle : c.work ≠ .running := by simp [starting]
    have busy : c.work ≠ .done := by simp [starting]
    have ready : c.Valid → ({ c with work := .done } : Call).Valid := by
      simp +contextual [Call.Valid, starting]
    split at stays
    next manual =>
      split at stays
      · split at stays
        · cases stays
          exact modify_work_inv h here rfl rfl rfl (by simp +contextual [Call.Valid, starting]) idle busy
        · cases stays
          exact modify_work_inv h here rfl rfl rfl (by simp +contextual [Call.Valid, starting, manual]) idle busy
      · cases stays
        exact finish_inv h here (.inl idle) ready
    next other =>
      split at stays
      · cases stays
        exact finish_inv h here (.inl idle) ready
      · cases stays
        have other : c.mode ≠ .manual := other
        exact modify_work_inv h here rfl rfl rfl (by simp +contextual [Call.Valid, starting, other]) idle busy
  | unsupported =>
    simp only [callStep, Option.ite_none_right_eq_some, Option.some.injEq] at stays
    obtain ⟨beginning, rfl⟩ := stays
    exact modify_work_inv h here rfl rfl rfl (by simp +contextual [Call.Valid, beginning]) (by simp [beginning])
      (by simp [beginning])
  | begun fulfilled =>
    simp only [callStep, Option.ite_none_right_eq_some, Option.some.injEq] at stays
    obtain ⟨beginning, rfl⟩ := stays
    have idle : c.work ≠ .running := by simp [beginning]
    have busy : c.work ≠ .done := by simp [beginning]
    cases fulfilled with
    | true =>
      refine modify_work_inv h here rfl rfl rfl (fun valid => ?_) idle busy
      cases aborted : c.aborted <;> simp_all [Call.Valid]
    | false => exact modify_work_inv h here rfl rfl rfl (by simp +contextual [Call.Valid, beginning]) idle busy
  | attempt =>
    simp only [callStep, Option.ite_none_right_eq_some, Option.some.injEq] at stays
    obtain ⟨native, rfl⟩ := stays
    refine modify_work_inv h here rfl rfl rfl (fun valid => ?_) (by simp [native]) (by simp [native])
    cases aborted : c.aborted <;> simp_all [Call.Valid]
  | callback fulfilled =>
    simp only [callStep, Option.ite_none_right_eq_some] at stays
    obtain ⟨⟨running, resolved⟩, stays⟩ := stays
    split at stays
    next manual =>
      cases stays
      refine becomes_inv h here (becomes_work rfl rfl rfl (fun valid => ?_)
        (fun _ nested => absurd (manual.symm.trans nested) nofun) fun _ => resolved)
      cases fulfilled <;> cases aborted : c.aborted <;> simp_all [Call.Valid]
    next connection =>
      cases stays
      refine becomes_inv h here (becomes_work rfl rfl rfl (fun valid => ?_)
        (fun _ nested => absurd (connection.symm.trans nested) nofun) fun _ => resolved)
      simp_all [Call.Valid]
    next direct =>
      cases stays
      refine finish_inv h here (.inr resolved) fun valid => ?_
      simp_all [Call.Valid]
    next scope nested =>
      cases stays
      exact finishNested_inv h here nested resolved
  | committed fulfilled =>
    simp only [callStep, Option.ite_none_right_eq_some, Option.some.injEq] at stays
    obtain ⟨committing, rfl⟩ := stays
    have idle : c.work ≠ .running := by simp [committing]
    have busy : c.work ≠ .done := by simp [committing]
    cases fulfilled with
    | true => exact modify_work_inv h here rfl rfl rfl (by simp +contextual [Call.Valid, committing]) idle busy
    | false => exact modify_work_inv h here rfl rfl rfl (by simp +contextual [Call.Valid, committing]) idle busy
  | rolledBack fulfilled =>
    simp only [callStep, Option.ite_none_right_eq_some, Option.some.injEq] at stays
    obtain ⟨aborting, rfl⟩ := stays
    refine modify_work_inv h here rfl rfl rfl (fun valid => ?_) (by simp [aborting]) (by simp [aborting])
    cases fulfilled <;> simp_all [Call.Valid]
  | ended =>
    simp only [callStep] at stays
    split at stays
    next ending =>
      cases stays
      exact modify_work_inv h here rfl rfl rfl (by simp +contextual [Call.Valid, ending]) (by simp [ending])
        (by simp [ending])
    next =>
      simp only [Option.ite_none_right_eq_some, Option.some.injEq] at stays
      obtain ⟨closing, rfl⟩ := stays
      exact finish_inv h here (.inl (by simp [closing])) (by simp +contextual [Call.Valid, closing])
  | native =>
    simp only [callStep, Option.ite_none_right_eq_some, Option.some.injEq] at stays
    obtain ⟨native, rfl⟩ := stays
    exact modify_work_inv h here rfl rfl rfl (by simp +contextual [Call.Valid, native]) (by simp [native])
      (by simp [native])
  | finished =>
    simp only [callStep, Option.ite_none_right_eq_some, Option.some.injEq] at stays
    obtain ⟨finishing, rfl⟩ := stays
    exact finish_inv h here (.inl (by simp [finishing])) (by simp +contextual [Call.Valid, finishing])
  | abort =>
    simp only [callStep, Option.ite_none_right_eq_some, Option.some.injEq] at stays
    exact stays.2 ▸ abort_inv h here

/-! ## Steps of the connection -/

theorem getElem?_added (calls : List Call) (c : Call) : (calls ++ [c])[calls.length]? = some c := by
  simp

theorem rootCall_root (options : Options) (request : Bool) : (System.rootCall options request).Root := by
  intro scope
  unfold System.rootCall
  cases options.native <;> exact nofun

theorem openRoot_inv (h : Inv s.calls) (request aborted : Bool) : Inv (s.openRoot options request aborted).calls := by
  have flat := rootCall_root options request
  have added : Inv (s.calls ++ [System.rootCall options request]) := by
    refine append_inv h ?_ (fun scope nested => absurd nested (flat scope)) (fun awaited => absurd rfl awaited) nofun
      fun scope nested => absurd nested (flat scope)
    unfold System.rootCall
    cases options.native <;> simp [Call.Valid]
  unfold System.openRoot
  dsimp only
  split
  · refine abort_inv ?_ (getElem?_added _ _)
    exact added
  · exact added

theorem isOpen_root {scope : Nat} (open_ : s.isOpen scope = true) :
    ∃ root, s.calls[scope]? = some root ∧ root.Root ∧ root.work = .running := by
  simp only [System.isOpen, Option.any_eq_true, Bool.and_eq_true, Bool.or_eq_true, decide_eq_true_eq] at open_
  obtain ⟨root, here, running, flat⟩ := open_
  refine ⟨root, here, fun other nested => ?_, running⟩
  simp [nested] at flat

theorem runsIn_running {scope : Nat} {awaitedBy : Option Nat} (awaited : awaitedBy.all (s.runsIn scope) = true) (p : Nat)
    (awaits : awaitedBy = some p) : ∃ d, s.calls[p]? = some d ∧ d.work = .running := by
  subst awaits
  simp only [Option.all_some, System.runsIn, Option.any_eq_true, Bool.and_eq_true, decide_eq_true_eq] at awaited
  obtain ⟨d, here, running, _⟩ := awaited
  exact ⟨d, here, running⟩

theorem nested_inv (h : Inv s.calls) (request : Bool) {scope : Nat} {awaitedBy : Option Nat}
    (open_ : s.isOpen scope = true) (awaited : awaitedBy.all (s.runsIn scope) = true) :
    Inv (s.calls ++ [⟨request, .nested scope, awaitedBy, .running, false, false, false, false, .unstarted, 0, []⟩]) := by
  refine append_inv h (by simp [Call.Valid]) (fun _ _ => .inl ⟨rfl, rfl⟩) (fun _ => ⟨scope, rfl⟩)
    (fun p awaits => ?_) fun _ nested => ?_
  · exact runsIn_running awaited p awaits
  · cases nested
    obtain ⟨root, here, flat, _⟩ := isOpen_root open_
    exact ⟨root, here, flat⟩

theorem openNested_inv (h : Inv s.calls) (request aborted : Bool) {scope : Nat} {awaitedBy : Option Nat}
    (open_ : s.isOpen scope = true) (awaited : awaitedBy.all (s.runsIn scope) = true) :
    Inv (s.openNested request aborted scope awaitedBy).calls := by
  have running := runsIn_running awaited
  have added := nested_inv h request open_ awaited
  -- no call awaits one that comes later
  have absent : ∀ d, s.calls[s.calls.length]? ≠ some d := fun d here => by simp at here
  unfold System.openNested
  dsimp only
  split
  · refine finishNested_inv ?_ (getElem?_added _ _) rfl ?_
    · exact added
    · refine List.all_eq_true.mpr fun d mem => ?_
      by_cases awaits : d.awaitedBy = some s.calls.length
      · rcases List.mem_append.mp mem with old | new
        · have settled : d.settled = true := by
            by_contra unsettled
            obtain ⟨e, here, _⟩ := h.awaited d old _ awaits (by simpa using unsettled)
            exact absent e here
          simp [settled]
        · rw [List.mem_singleton.mp new] at awaits
          obtain ⟨e, here, _⟩ := running _ awaits
          exact absurd here (absent e)
      · simp [awaits]
  · exact added

theorem foldl_abort_inv (l : List Nat) (h : Inv s.calls) : Inv (l.foldl System.abortActive s).calls := by
  induction l generalizing s with
  | nil => exact h
  | cons index l ih =>
    refine ih ?_
    unfold System.abortActive
    split
    next c here => exact abort_inv h here
    next => exact h

theorem step_inv {e : Event} (h : Inv s.calls) (stays : step options s e = some t) : Inv t.calls := by
  cases e with
  | opened request aborted scope awaitedBy =>
    simp only [step] at stays
    split at stays
    · cases stays
      exact h
    · split at stays
      · split at stays
        · cases stays
          exact openRoot_inv h request aborted
        · cases stays
      · split at stays
        next ready =>
          cases stays
          exact openNested_inv h request aborted ready.1 ready.2
        next => cases stays
  | call index e =>
    obtain ⟨c, here, stays⟩ := Option.bind_eq_some_iff.mp stays
    exact callStep_inv h here stays
  | shutdown =>
    cases stays
    exact foldl_abort_inv (s := { s with lifecycle := .shuttingDown }) s.activeRequestTransactions h
  | disposed =>
    simp only [step] at stays
    split at stays
    · simp only [Option.ite_none_right_eq_some, Option.some.injEq] at stays
      exact stays.2 ▸ h
    · cases stays

/-! ## Callbacks that a boundary awaits -/

/-- The boundaries whose completion a boundary awaits, directly or through others. -/
inductive Awaits (calls : List Call) (root : Nat) : Nat → Prop where
  | direct {index : Nat} {c : Call} (here : calls[index]? = some c) (awaited : c.awaitedBy = some root) :
    Awaits calls root index
  | through {between index : Nat} {c : Call} (h : Awaits calls root between) (here : calls[index]? = some c)
    (awaited : c.awaitedBy = some between) : Awaits calls root index

/-- While a boundary runs that another awaits, the callback of the other runs. -/
theorem Awaits.running {root : Nat} (inv : Inv calls) (h : Awaits calls root index) (here : calls[index]? = some c)
    (busy : c.work ≠ .done) : ∃ d, calls[root]? = some d ∧ d.work = .running := by
  have unsettled : ∀ {d : Call} {i p : Nat}, calls[i]? = some d → d.awaitedBy = some p → d.work ≠ .done →
      ∃ e, calls[p]? = some e ∧ e.work = .running := by
    intro d i p at_ awaited busy
    have mem := List.mem_of_getElem? at_
    obtain ⟨scope, nested⟩ := inv.nested d mem (by simp [awaited])
    rcases inv.prompt d mem scope nested with ⟨unsettled, _⟩ | ⟨_, done⟩
    · exact inv.awaited d mem p awaited unsettled
    · exact absurd done busy
  induction h generalizing c with
  | direct at_ awaited =>
    obtain rfl := Option.some.inj (here.symm.trans at_)
    exact unsettled here awaited busy
  | through _ at_ awaited ih =>
    obtain rfl := Option.some.inj (here.symm.trans at_)
    obtain ⟨d, between, running⟩ := unsettled here awaited busy
    exact ih between (by simp [running])

/-- No callback runs that a boundary awaits whose session has been ended. -/
theorem Inv.quiet (inv : Inv calls) {root : Nat} {r : Call} (at_ : calls[root]? = some r) (ended : r.ended ≠ 0)
    (h : Awaits calls root index) (here : calls[index]? = some c) : c.work = .done := by
  by_contra busy
  obtain ⟨d, same, running⟩ := h.running inv here busy
  obtain rfl := Option.some.inj (at_.symm.trans same)
  have valid := inv.valid r (List.mem_of_getElem? at_)
  simp only [Call.Valid, running] at valid
  exact ended valid.1

/-! ## What stays tracked -/

/-- A boundary of its own that is in flight. -/
def Active (calls : List Call) (index : Nat) : Prop := ∃ c, calls[index]? = some c ∧ c.work ≠ .done ∧ c.Root

/-- A request that is in flight, or that an active session is to untrack. -/
def Held (calls : List Call) (index : Nat) : Prop :=
  ∃ c, calls[index]? = some c ∧ c.request = true ∧
    (c.work ≠ .done ∨ ∃ (root : Nat) (r : Call), calls[root]? = some r ∧ r.work ≠ .done ∧ r.Root ∧
      index ∈ r.retained)

structure Tracked (s : System) : Prop where
  requests : ∀ index ∈ s.activeRequestTransactions, Held s.calls index
  sessions : ∀ index ∈ s.activeSessions, Active s.calls index
  callbacks : ∀ index ∈ s.activeTransactionCallbacks, Active s.calls index

/-- A call that was not done is not done now, and retains what it retained. -/
structure Call.Continues (c c' : Call) : Prop where
  request : c'.request = c.request
  mode : c'.mode = c.mode
  busy : c.work ≠ .done → c'.work ≠ .done
  retained : ∀ index ∈ c.retained, index ∈ c'.retained

/-- The calls but for `except` continue. -/
def Continues (calls calls' : List Call) (except : Option Nat) : Prop :=
  ∀ (index : Nat) (c : Call), calls[index]? = some c → except ≠ some index →
    ∃ c', calls'[index]? = some c' ∧ c.Continues c'

theorem Call.Continues.root (h : c.Continues c') (root : c.Root) : c'.Root := fun scope => h.mode ▸ root scope

theorem Call.Continues.refl (c : Call) : c.Continues c := ⟨rfl, rfl, id, fun _ => id⟩

theorem continues_modify (index : Nat) (continues : ∀ c : Call, c.Continues (f c)) :
    Continues calls (calls.modify index f) none := by
  intro i c here _
  by_cases same : index = i
  · exact ⟨f c, same ▸ getElem?_modify_self (same ▸ here), continues c⟩
  · exact ⟨c, by simp [same, here], .refl c⟩

theorem continues_others (calls : List Call) (index : Nat) (f : Call → Call) :
    Continues calls (calls.modify index f) (some index) := by
  intro i c here other
  have other : index ≠ i := fun same => other (congrArg some same)
  exact ⟨c, by simp [other, here], .refl c⟩

theorem continues_append (calls : List Call) (c : Call) : Continues calls (calls ++ [c]) none := by
  intro i d here _
  exact ⟨d, by rw [List.getElem?_append_left (List.getElem?_eq_some_iff.mp here).1, here], .refl d⟩

theorem Active.continues {calls' : List Call} {except : Option Nat} (h : Active calls index)
    (continues : Continues calls calls' except) (other : except ≠ some index) : Active calls' index := by
  obtain ⟨c, here, busy, root⟩ := h
  obtain ⟨c', here', same⟩ := continues index c here other
  exact ⟨c', here', same.busy busy, same.root root⟩

theorem Held.continues {calls' : List Call} {except : Option Nat} (h : Held calls index)
    (continues : Continues calls calls' except) (other : except ≠ some index)
    (kept : ∀ (i : Nat) (c : Call), except = some i → calls[i]? = some c → c.Root → index ∉ c.retained) :
    Held calls' index := by
  obtain ⟨c, here, request, held⟩ := h
  obtain ⟨c', here', same⟩ := continues index c here other
  refine ⟨c', here', same.request.trans request, ?_⟩
  rcases held with busy | ⟨root, r, at_, busy, flat, retained⟩
  · exact .inl (same.busy busy)
  · have apart : except ≠ some root := fun same => kept root r same at_ flat retained
    obtain ⟨r', at', same⟩ := continues root r at_ apart
    exact .inr ⟨root, r', at', same.busy busy, same.root flat, same.retained index retained⟩

/-- A step after which every call continues tracks no more than before. -/
theorem Tracked.continues (h : Tracked s) (continues : Continues s.calls t.calls none)
    (requests : ∀ index ∈ t.activeRequestTransactions, index ∈ s.activeRequestTransactions)
    (sessions : ∀ index ∈ t.activeSessions, index ∈ s.activeSessions)
    (callbacks : ∀ index ∈ t.activeTransactionCallbacks, index ∈ s.activeTransactionCallbacks) : Tracked t where
  requests index mem := (h.requests index (requests index mem)).continues continues (by simp) (by simp)
  sessions index mem := (h.sessions index (sessions index mem)).continues continues (by simp)
  callbacks index mem := (h.callbacks index (callbacks index mem)).continues continues (by simp)

theorem modify_tracked (h : Tracked s) (index : Nat) (continues : ∀ c : Call, c.Continues (f c)) :
    Tracked (s.modify index f) :=
  h.continues (t := s.modify index f) (continues_modify index continues) (fun _ => id) (fun _ => id) (fun _ => id)

theorem continues_work (f : Call → Call) (request : ∀ c, (f c).request = c.request) (mode : ∀ c, (f c).mode = c.mode)
    (busy : ∀ c, (f c).work ≠ .done) (retained : ∀ c, (f c).retained = c.retained) (c : Call) : c.Continues (f c) :=
  ⟨request c, mode c, fun _ => busy c, fun _ mem => (retained c).symm ▸ mem⟩

theorem finish_tracked (h : Tracked s) (here : s.calls[index]? = some c) : Tracked (s.finish index c) where
  requests i mem := by
    obtain ⟨mem, other⟩ := List.mem_filter.mp mem
    obtain ⟨mem, free⟩ := List.mem_filter.mp mem
    have other : i ≠ index := of_decide_eq_true other
    refine (h.requests i mem).continues (continues_others s.calls index _) (fun same => other (Option.some.inj same).symm) ?_
    intro j d same at_ _
    obtain rfl := Option.some.inj same
    obtain rfl := Option.some.inj (at_.symm.trans here)
    exact of_decide_eq_true free
  sessions i mem := by
    obtain ⟨mem, other⟩ := List.mem_filter.mp mem
    have other : i ≠ index := of_decide_eq_true other
    exact (h.sessions i mem).continues (continues_others s.calls index _) fun same => other (Option.some.inj same).symm
  callbacks i mem := by
    obtain ⟨mem, other⟩ := List.mem_filter.mp mem
    have other : i ≠ index := of_decide_eq_true other
    exact (h.callbacks i mem).continues (continues_others s.calls index _) fun same => other (Option.some.inj same).symm

/-- A nested boundary ends while its scope is in flight: its request stays tracked
until the active session settles. -/
theorem finishNested_tracked {scope : Nat} (inv : Inv s.calls) (h : Tracked s) (here : s.calls[index]? = some c)
    (nested : c.mode = .nested scope)
    (open_ : c.request = true → ∃ root, s.calls[scope]? = some root ∧ root.work ≠ .done) :
    Tracked (s.finishNested index c scope) := by
  obtain ⟨root, at_, flat⟩ := inv.rooted c (List.mem_of_getElem? here) scope nested
  have apart : index ≠ scope := by
    rintro rfl
    obtain rfl := Option.some.inj (here.symm.trans at_)
    exact flat _ nested
  have others := continues_others s.calls index fun c => { c with work := .done, settled := true }
  have active : ∀ i, Active s.calls i →
      Active (s.modify index fun c => { c with work := .done, settled := true }).calls i := by
    intro i held
    refine held.continues others fun same => ?_
    obtain rfl := Option.some.inj same
    obtain ⟨d, at_, _, root⟩ := held
    obtain rfl := Option.some.inj (here.symm.trans at_)
    exact root _ nested
  have requests : ∀ i, i ≠ index → Held s.calls i →
      Held (s.modify index fun c => { c with work := .done, settled := true }).calls i := by
    intro i other held
    refine held.continues others (fun same => other (Option.some.inj same).symm) fun j d same at_ flat => ?_
    obtain rfl := Option.some.inj same
    obtain rfl := Option.some.inj (here.symm.trans at_)
    exact absurd nested (flat scope)
  unfold System.finishNested
  dsimp only
  split
  next request =>
    obtain ⟨root', at', busy⟩ := open_ request
    obtain rfl := Option.some.inj (at_.symm.trans at')
    have retains : Continues (s.modify index fun c => { c with work := .done, settled := true }).calls
        ((s.modify index fun c => { c with work := .done, settled := true }).modify scope fun root =>
          { root with retained := index :: root.retained }).calls none :=
      continues_modify scope fun c => ⟨rfl, rfl, id, fun _ => List.mem_cons_of_mem _⟩
    refine ⟨fun i mem => ?_, fun i mem => ?_, fun i mem => ?_⟩
    · by_cases same : i = index
      · subst same
        refine ⟨{ c with work := .done, settled := true }, ?_, request,
          .inr ⟨scope, { root with retained := i :: root.retained }, ?_, busy, flat, List.mem_cons_self⟩⟩
        · simp [System.modify, here, apart.symm]
        · simp [System.modify, at_, apart]
      · exact (requests i same (h.requests i mem)).continues retains (by simp) (by simp)
    · exact (active i (h.sessions i mem)).continues retains (by simp)
    · exact (active i (h.callbacks i mem)).continues retains (by simp)
  next other =>
    refine ⟨fun i mem => requests i ?_ (h.requests i mem), fun i mem => active i (h.sessions i mem),
      fun i mem => active i (h.callbacks i mem)⟩
    rintro rfl
    obtain ⟨d, at_, request, _⟩ := h.requests i mem
    obtain rfl := Option.some.inj (here.symm.trans at_)
    exact other request

theorem abort_tracked (h : Tracked s) (index : Nat) (c : Call) : Tracked (s.abort index c) := by
  have flagged (f : Call → Call) (work : ∀ c, (f c).work = c.work) (request : ∀ c, (f c).request = c.request)
      (mode : ∀ c, (f c).mode = c.mode) (retained : ∀ c, (f c).retained = c.retained) (c : Call) : c.Continues (f c) :=
    ⟨request c, mode c, fun busy => (work c).symm ▸ busy, fun _ mem => (retained c).symm ▸ mem⟩
  have aborted : Tracked (s.modify index fun c => { c with aborted := true }) :=
    modify_tracked h index (flagged _ (fun _ => rfl) (fun _ => rfl) (fun _ => rfl) fun _ => rfl)
  have rejects := modify_tracked aborted index
    (flagged (fun c => { c with settled := true }) (fun _ => rfl) (fun _ => rfl) (fun _ => rfl) fun _ => rfl)
  unfold System.abort
  dsimp only
  split
  · exact rejects
  · split
    · exact ⟨fun i mem => rejects.requests i (List.mem_filter.mp mem).1, rejects.sessions, rejects.callbacks⟩
    · exact aborted

/-- A request whose active session has settled is not among those that end. -/
def System.outlives (s : System) (c : Call) : Bool :=
  match c.mode with
  | .nested scope => c.request && !(s.calls[scope]?.any fun root => root.work ≠ .done)
  | _ => false

/-- No request boundary ends after the active session that is to untrack it. -/
def Careful (s : System) : Event → Prop
  | .call index (.callback _) => s.calls[index]?.all (fun c => !s.outlives c) = true
  | _ => True

instance (s : System) (e : Event) : Decidable (Careful s e) := by
  unfold Careful
  split <;> infer_instance

theorem callStep_tracked {e : CallEvent} (inv : Inv s.calls) (h : Tracked s) (here : s.calls[index]? = some c)
    (careful : Careful s (.call index e)) (stays : callStep options s index c e = some t) : Tracked t := by
  cases e with
  | session fulfilled =>
    simp only [callStep, Option.ite_none_right_eq_some] at stays
    obtain ⟨starting, stays⟩ := stays
    split at stays
    next manual =>
      split at stays
      · split at stays
        · cases stays
          exact modify_tracked h index (continues_work _ (fun _ => rfl) (fun _ => rfl) (fun _ => nofun) fun _ => rfl)
        · cases stays
          have begun := modify_tracked h index (f := fun c => { c with obtained := true, work := .beginning })
            (continues_work _ (fun _ => rfl) (fun _ => rfl) (fun _ => nofun) fun _ => rfl)
          refine ⟨begun.requests, fun i mem => ?_, begun.callbacks⟩
          rcases List.mem_cons.mp mem with rfl | mem
          · exact ⟨_, getElem?_modify_self here, nofun, fun scope nested => absurd (manual.symm.trans nested) nofun⟩
          · exact begun.sessions i mem
      · cases stays
        exact finish_tracked h here
    next =>
      split at stays
      · cases stays
        exact finish_tracked h here
      · cases stays
        exact modify_tracked h index (continues_work _ (fun _ => rfl) (fun _ => rfl) (fun _ => nofun) fun _ => rfl)
  | unsupported | native =>
    simp only [callStep, Option.ite_none_right_eq_some, Option.some.injEq] at stays
    obtain ⟨_, rfl⟩ := stays
    exact modify_tracked h index (continues_work _ (fun _ => rfl) (fun _ => rfl) (fun _ => nofun) fun _ => rfl)
  | begun fulfilled =>
    simp only [callStep, Option.ite_none_right_eq_some, Option.some.injEq] at stays
    obtain ⟨_, rfl⟩ := stays
    cases fulfilled with
    | true =>
      refine modify_tracked h index (continues_work _ (fun _ => rfl) (fun _ => rfl) (fun c => ?_) fun _ => rfl)
      cases aborted : c.aborted <;> simp
    | false => exact modify_tracked h index (continues_work _ (fun _ => rfl) (fun _ => rfl) (fun _ => nofun) fun _ => rfl)
  | attempt =>
    simp only [callStep, Option.ite_none_right_eq_some, Option.some.injEq] at stays
    obtain ⟨_, rfl⟩ := stays
    refine modify_tracked h index (continues_work _ (fun _ => rfl) (fun _ => rfl) (fun c => ?_) fun _ => rfl)
    cases aborted : c.aborted <;> simp
  | callback fulfilled =>
    simp only [callStep, Option.ite_none_right_eq_some] at stays
    obtain ⟨_, stays⟩ := stays
    split at stays
    next manual =>
      cases stays
      refine modify_tracked h index (continues_work _ (fun _ => rfl) (fun _ => rfl) (fun c => ?_) fun _ => rfl)
      cases fulfilled <;> cases aborted : c.aborted <;> simp
    next connection =>
      cases stays
      exact modify_tracked h index (continues_work _ (fun _ => rfl) (fun _ => rfl) (fun _ => nofun) fun _ => rfl)
    next direct =>
      cases stays
      exact finish_tracked h here
    next scope nested =>
      cases stays
      refine finishNested_tracked inv h here nested fun request => ?_
      have busy : s.calls[scope]?.any (fun root => root.work ≠ .done) = true := by
        simpa [Careful, here, System.outlives, nested, request] using careful
      obtain ⟨root, at_, busy⟩ := Option.any_eq_true _ _ |>.mp busy
      exact ⟨root, at_, of_decide_eq_true busy⟩
  | committed fulfilled =>
    simp only [callStep, Option.ite_none_right_eq_some, Option.some.injEq] at stays
    obtain ⟨_, rfl⟩ := stays
    cases fulfilled <;>
      exact modify_tracked h index (continues_work _ (fun _ => rfl) (fun _ => rfl) (fun _ => nofun) fun _ => rfl)
  | rolledBack fulfilled =>
    simp only [callStep, Option.ite_none_right_eq_some, Option.some.injEq] at stays
    obtain ⟨_, rfl⟩ := stays
    exact modify_tracked h index (continues_work _ (fun _ => rfl) (fun _ => rfl) (fun _ => nofun) fun _ => rfl)
  | ended =>
    simp only [callStep] at stays
    split at stays
    · cases stays
      exact modify_tracked h index (continues_work _ (fun _ => rfl) (fun _ => rfl) (fun _ => nofun) fun _ => rfl)
    · simp only [Option.ite_none_right_eq_some, Option.some.injEq] at stays
      exact stays.2 ▸ finish_tracked h here
  | finished =>
    simp only [callStep, Option.ite_none_right_eq_some, Option.some.injEq] at stays
    exact stays.2 ▸ finish_tracked h here
  | abort =>
    simp only [callStep, Option.ite_none_right_eq_some, Option.some.injEq] at stays
    exact stays.2 ▸ abort_tracked h index c

theorem openRoot_tracked (h : Tracked s) (request aborted : Bool) : Tracked (s.openRoot options request aborted) := by
  have here := getElem?_added s.calls (System.rootCall options request)
  have busy : (System.rootCall options request).work ≠ .done := by
    unfold System.rootCall
    cases options.native <;> exact nofun
  have added := continues_append s.calls (System.rootCall options request)
  have active : Active (s.calls ++ [System.rootCall options request]) s.calls.length :=
    ⟨_, here, busy, rootCall_root options request⟩
  have tracked : Tracked { s with
      calls := s.calls ++ [System.rootCall options request]
      activeRequestTransactions :=
        if request then s.calls.length :: s.activeRequestTransactions else s.activeRequestTransactions
      activeSessions := if options.native = .connection then s.calls.length :: s.activeSessions else s.activeSessions
      activeTransactionCallbacks :=
        if request || options.native = .connection then s.activeTransactionCallbacks
        else s.calls.length :: s.activeTransactionCallbacks } := by
    refine ⟨fun i mem => ?_, fun i mem => ?_, fun i mem => ?_⟩ <;> dsimp only at mem ⊢ <;> split at mem
    next requests =>
      rcases List.mem_cons.mp mem with rfl | mem
      · exact ⟨_, here, requests, .inl busy⟩
      · exact (h.requests i mem).continues added (by simp) (by simp)
    next => exact (h.requests i mem).continues added (by simp) (by simp)
    next =>
      rcases List.mem_cons.mp mem with rfl | mem
      · exact active
      · exact (h.sessions i mem).continues added (by simp)
    next => exact (h.sessions i mem).continues added (by simp)
    next => exact (h.callbacks i mem).continues added (by simp)
    next =>
      rcases List.mem_cons.mp mem with rfl | mem
      · exact active
      · exact (h.callbacks i mem).continues added (by simp)
  unfold System.openRoot
  dsimp only
  split
  · exact abort_tracked tracked _ _
  · exact tracked

theorem openNested_tracked (inv : Inv s.calls) (h : Tracked s) (request aborted : Bool) {scope : Nat}
    {awaitedBy : Option Nat} (open_ : s.isOpen scope = true) (awaited : awaitedBy.all (s.runsIn scope) = true) :
    Tracked (s.openNested request aborted scope awaitedBy) := by
  have here := getElem?_added s.calls
    ⟨request, .nested scope, awaitedBy, .running, false, false, false, false, .unstarted, 0, []⟩
  have added := continues_append s.calls
    ⟨request, .nested scope, awaitedBy, .running, false, false, false, false, .unstarted, 0, []⟩
  have tracked : Tracked { s with
      calls := s.calls ++
        [⟨request, .nested scope, awaitedBy, .running, false, false, false, false, .unstarted, 0, []⟩]
      activeRequestTransactions :=
        if request then s.calls.length :: s.activeRequestTransactions else s.activeRequestTransactions } := by
    refine ⟨fun i mem => ?_, fun i mem => (h.sessions i mem).continues added (by simp),
      fun i mem => (h.callbacks i mem).continues added (by simp)⟩
    dsimp only at mem ⊢
    split at mem
    next requests =>
      rcases List.mem_cons.mp mem with rfl | mem
      · exact ⟨_, here, requests, .inl nofun⟩
      · exact (h.requests i mem).continues added (by simp) (by simp)
    next => exact (h.requests i mem).continues added (by simp) (by simp)
  unfold System.openNested
  dsimp only
  split
  · refine finishNested_tracked (nested_inv inv request open_ awaited) tracked here rfl fun _ => ?_
    obtain ⟨root, at_, _, running⟩ := isOpen_root open_
    obtain ⟨root', at', same⟩ := added scope root at_ (by simp)
    exact ⟨root', at', same.busy (by simp [running])⟩
  · exact tracked

theorem foldl_abort_tracked (l : List Nat) (h : Tracked s) : Tracked (l.foldl System.abortActive s) := by
  induction l generalizing s with
  | nil => exact h
  | cons index l ih =>
    refine ih ?_
    unfold System.abortActive
    split
    · exact abort_tracked h index _
    · exact h

theorem step_tracked {e : Event} (inv : Inv s.calls) (h : Tracked s) (careful : Careful s e)
    (stays : step options s e = some t) : Tracked t := by
  cases e with
  | opened request aborted scope awaitedBy =>
    simp only [step] at stays
    split at stays
    · cases stays
      exact h
    · split at stays
      · split at stays
        · cases stays
          exact openRoot_tracked h request aborted
        · cases stays
      · split at stays
        next ready =>
          cases stays
          exact openNested_tracked inv h request aborted ready.1 ready.2
        next => cases stays
  | call index e =>
    obtain ⟨c, here, stays⟩ := Option.bind_eq_some_iff.mp stays
    exact callStep_tracked inv h here careful stays
  | shutdown =>
    cases stays
    have aborted := foldl_abort_tracked (s := { s with lifecycle := .shuttingDown }) s.activeRequestTransactions
      ⟨h.requests, h.sessions, h.callbacks⟩
    exact ⟨aborted.requests, aborted.sessions, aborted.callbacks⟩
  | disposed =>
    simp only [step] at stays
    split at stays
    · simp only [Option.ite_none_right_eq_some, Option.some.injEq] at stays
      exact stays.2 ▸ ⟨h.requests, h.sessions, h.callbacks⟩
    · cases stays

/-! ## Runs -/

/-- What is promised of the sessions: each is ended once, after its transaction, and
after the callback of its boundary and those that the boundary awaits. -/
structure SessionsEnd (calls : List Call) : Prop where
  unobtained : ∀ c ∈ calls, c.obtained = false → c.ended = 0
  once : ∀ c ∈ calls, c.obtained = true → c.ended ≤ 1 ∧ (c.work = .done → c.ended = 1)
  transaction : ∀ c ∈ calls, c.ended ≠ 0 → c.transaction ≠ .started
  callback : ∀ c ∈ calls, c.ended ≠ 0 → c.work ≠ .running
  awaited : ∀ (root : Nat) (r : Call), calls[root]? = some r → r.ended ≠ 0 → ∀ index, Awaits calls root index →
    ∀ c, calls[index]? = some c → c.work = .done

/-- Nothing is tracked when no boundary is in flight, and shutdown goes on. -/
structure Drains (options : Options) (s : System) : Prop where
  requests : (∀ c ∈ s.calls, c.work = .done) → s.activeRequestTransactions = []
  sessions : (∀ c ∈ s.calls, c.work = .done) → s.activeSessions = []
  callbacks : (∀ c ∈ s.calls, c.work = .done) → s.activeTransactionCallbacks = []
  shutdown : (∀ c ∈ s.calls, c.work = .done) → s.shutdown ≠ none → ∃ t, step options s .disposed = some t

theorem Inv.sessionsEnd (h : Inv calls) : SessionsEnd calls where
  unobtained c mem obtained := by
    have valid := h.valid c mem
    cases work : c.work <;> simp_all [Call.Valid]
  once c mem obtained := by
    have valid := h.valid c mem
    cases work : c.work <;> simp_all [Call.Valid]
  transaction c mem ended := by
    have valid := h.valid c mem
    cases work : c.work <;> simp_all [Call.Valid]
  callback c mem ended running := by
    have valid := h.valid c mem
    simp only [Call.Valid, running] at valid
    exact ended valid.1
  awaited root r at_ ended index awaits c here := h.quiet at_ ended awaits here

theorem Tracked.drains (h : Tracked s) : Drains options s := by
  have active (idle : ∀ c ∈ s.calls, c.work = .done) (index : Nat) : ¬ Active s.calls index := by
    rintro ⟨c, here, busy, _⟩
    exact busy (idle c (List.mem_of_getElem? here))
  have held (idle : ∀ c ∈ s.calls, c.work = .done) (index : Nat) : ¬ Held s.calls index := by
    rintro ⟨c, here, _, busy | ⟨root, r, at_, busy, _⟩⟩
    · exact busy (idle c (List.mem_of_getElem? here))
    · exact busy (idle r (List.mem_of_getElem? at_))
  have requests (idle : ∀ c ∈ s.calls, c.work = .done) : s.activeRequestTransactions = [] :=
    List.eq_nil_iff_forall_not_mem.mpr fun index mem => held idle index (h.requests index mem)
  have sessions (idle : ∀ c ∈ s.calls, c.work = .done) : s.activeSessions = [] :=
    List.eq_nil_iff_forall_not_mem.mpr fun index mem => active idle index (h.sessions index mem)
  have callbacks (idle : ∀ c ∈ s.calls, c.work = .done) : s.activeTransactionCallbacks = [] :=
    List.eq_nil_iff_forall_not_mem.mpr fun index mem => active idle index (h.callbacks index mem)
  refine ⟨requests, sessions, callbacks, fun idle shutdown => ?_⟩
  obtain ⟨waits, waiting⟩ := Option.ne_none_iff_exists'.mp shutdown
  refine ⟨{ s with lifecycle := .stopped, shutdown := none }, ?_⟩
  simp [step, waiting, System.drained, requests idle, sessions idle, callbacks idle]

/-- In every run every session is ended once and in time; while no request boundary
ends after the active session that is to untrack it, the three sets are empty when no
boundary is in flight and shutdown completes. -/
theorem boundaries_balanced {es : List Event} (run : Run.run (step options) .initial es = some s) :
    SessionsEnd s.calls ∧ (Run.Throughout (step options) Careful .initial es → Drains options s) := by
  have fresh : Inv System.initial.calls := by
    constructor <;> simp [System.initial]
  have inv : Inv s.calls :=
    Run.keeps (I := fun s => Inv s.calls) (fun _ _ _ inv stays => step_inv inv stays) fresh run
  refine ⟨inv.sessionsEnd, fun careful => ?_⟩
  have tracked : Inv s.calls ∧ Tracked s := Run.keeps_throughout (I := fun s => Inv s.calls ∧ Tracked s)
    (fun _ _ _ careful h stays => ⟨step_inv h.1 stays, step_tracked h.1 h.2 careful stays⟩)
    ⟨fresh, by constructor <;> simp [System.initial]⟩ careful run
  exact tracked.2.drains

/-- A request boundary within a boundary that awaits it. -/
def awaitedRequest : List Event :=
  [.opened false false none none, .call 0 (.session true), .call 0 (.begun true), .opened true false (some 0) (some 0),
    .call 1 (.callback true), .call 0 (.callback true), .call 0 (.committed true), .call 0 .ended, .call 0 .finished,
    .shutdown]

theorem boundaries_balanced_awaited :
    ∃ s, Run.run (step ⟨.session, true⟩) .initial awaitedRequest = some s ∧ Drains ⟨.session, true⟩ s := by
  have careful : Run.Throughout (step ⟨.session, true⟩) Careful .initial awaitedRequest := by decide
  exact ⟨_, rfl, (boundaries_balanced rfl).2 careful⟩

/-- A request boundary that the enclosing boundary does not await. -/
def unawaitedRequest : List Event :=
  [.opened false false none none, .call 0 (.session true), .call 0 (.begun true), .opened true false (some 0) none,
    .call 0 (.callback true), .call 0 (.committed true), .call 0 .ended, .call 0 .finished, .call 1 (.callback true),
    .shutdown]

/-- It stays tracked after all boundaries are done, and shutdown waits for it. -/
theorem request_stays_tracked : ∃ s, Run.run (step ⟨.session, true⟩) .initial unawaitedRequest = some s ∧
    (∀ c ∈ s.calls, c.work = .done ∧ c.settled = true) ∧ s.activeRequestTransactions = [1] ∧
    s.shutdown ≠ none ∧ step ⟨.session, true⟩ s .disposed = none :=
  ⟨_, rfl, by decide, rfl, nofun, rfl⟩

end Fluo.Mongoose.Boundaries
