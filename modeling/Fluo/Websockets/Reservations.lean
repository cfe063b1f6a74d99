import Mathlib.Data.List.Perm.Basic
import Fluo.Websockets.Admission

/-!
# Reservations are conserved

Every reservation belongs to an upgrade that is under way, or to a handshake that
the websocket library has refused.
-/

namespace Fluo.Websockets.Admission

def Upgrade.reserves : Upgrade → Bool
  | .guarding | .resolved none => true
  | .resolved (some _) => false

structure Inv (options : ModuleOptions) (s : Service) : Prop where
  fresh : ∀ socket ∈ s.socketRegistry, socket < s.nextSocketId
  distinct : s.socketRegistry.Nodup
  balance : s.pendingUpgradeReservations = s.upgrades.countP Upgrade.reserves + s.destroyed
  capacity : s.socketRegistry.length + s.pendingUpgradeReservations ≤ resolveMaxConnectionCount options

structure Shrinks (s t : Service) : Prop where
  registry : t.socketRegistry.Sublist s.socketRegistry
  nextSocketId : t.nextSocketId = s.nextSocketId
  reservations : t.pendingUpgradeReservations = s.pendingUpgradeReservations
  upgrades : t.upgrades = s.upgrades
  destroyed : t.destroyed = s.destroyed

variable {options : ModuleOptions} {s t u : Service}

theorem Shrinks.refl (s : Service) : Shrinks s s := ⟨.refl _, rfl, rfl, rfl, rfl⟩

theorem Shrinks.trans (h : Shrinks s t) (h' : Shrinks t u) : Shrinks s u where
  registry := h'.registry.trans h.registry
  nextSocketId := h'.nextSocketId.trans h.nextSocketId
  reservations := h'.reservations.trans h.reservations
  upgrades := h'.upgrades.trans h.upgrades
  destroyed := h'.destroyed.trans h.destroyed

theorem Shrinks.inv (h : Shrinks s t) (inv : Inv options s) : Inv options t where
  fresh socket mem := h.nextSocketId ▸ inv.fresh socket (h.registry.subset mem)
  distinct := inv.distinct.sublist h.registry
  balance := by rw [h.reservations, h.upgrades, h.destroyed, inv.balance]
  capacity := by
    have shorter := h.registry.length_le
    have capacity := inv.capacity
    rw [h.reservations]
    omega

theorem shrinks_foldl {α : Type} {f : Service → α → Service} (each : ∀ s a, Shrinks s (f s a)) (l : List α) (s : Service) :
    Shrinks s (l.foldl f s) := by
  induction l generalizing s with
  | nil => exact .refl s
  | cons a l ih => exact (each s a).trans (ih (f s a))

theorem unregisterSocket_shrinks (s : Service) (socket : Nat) : Shrinks s (s.unregisterSocket socket) :=
  ⟨List.filter_sublist, rfl, rfl, rfl, rfl⟩

theorem beat_shrinks (now : Nat) (isOpen : Nat → Bool) (s : Service) (socket : Nat) :
    Shrinks s (s.beat options now isOpen socket) := by
  unfold Service.beat
  split
  next =>
    split
    · exact unregisterSocket_shrinks s socket
    · exact .refl s
  next => split <;> exact ⟨.refl _, rfl, rfl, rfl, rfl⟩

theorem broadcast_shrinks (isOpen : Nat → Bool) (bufferedAmount : Nat → Nat) (s : Service) (socket : Nat) :
    Shrinks s (s.broadcast options isOpen bufferedAmount socket) := by
  unfold Service.broadcast
  split
  · exact unregisterSocket_shrinks s socket
  · exact .refl s

/-! ## Upgrades -/

/-- A step of an upgrade takes it from those that wait. -/
theorem reserves_eraseIdx {upgrades : List Upgrade} {index : Nat} {upgrade : Upgrade}
    (here : upgrades[index]? = some upgrade) :
    upgrades.countP Upgrade.reserves = (upgrades.eraseIdx index).countP Upgrade.reserves + upgrade.reserves.toNat := by
  obtain ⟨bound, rfl⟩ := List.getElem?_eq_some_iff.mp here
  rw [← (List.getElem_cons_eraseIdx_perm bound).countP_eq, List.countP_cons]
  cases upgrades[index].reserves <;> rfl

/-- An upgrade that no longer waits: its reservation is still counted. -/
structure Holding (options : ModuleOptions) (s : Service) : Prop where
  fresh : ∀ socket ∈ s.socketRegistry, socket < s.nextSocketId
  distinct : s.socketRegistry.Nodup
  balance : s.pendingUpgradeReservations = s.upgrades.countP Upgrade.reserves + s.destroyed + 1
  capacity : s.socketRegistry.length + s.pendingUpgradeReservations ≤ resolveMaxConnectionCount options

theorem Inv.take {index : Nat} {upgrade : Upgrade} (h : Inv options s) (here : s.upgrades[index]? = some upgrade)
    (reserves : upgrade.reserves = true) : Holding options { s with upgrades := s.upgrades.eraseIdx index } where
  fresh := h.fresh
  distinct := h.distinct
  balance := by
    have counted := reserves_eraseIdx here
    have balance := h.balance
    rw [reserves, Bool.toNat_true] at counted
    dsimp only
    omega
  capacity := h.capacity

theorem Inv.respond (h : Inv options s) (rejection : WebSocketUpgradeRejection) :
    Inv options (s.rejectUpgradeRequestWithStatus rejection) :=
  ⟨h.fresh, h.distinct, h.balance, h.capacity⟩

theorem Inv.reject (h : Inv options s) (rejection : WebSocketUpgradeRejection) :
    Inv options (s.wait (.resolved (some rejection))) where
  fresh := h.fresh
  distinct := h.distinct
  balance := by simpa [Service.wait, Upgrade.reserves] using h.balance
  capacity := h.capacity

theorem Holding.release (h : Holding options s) : Inv options s.releaseUpgradeReservation where
  fresh := h.fresh
  distinct := h.distinct
  balance := by
    have balance := h.balance
    simp only [Service.releaseUpgradeReservation]
    omega
  capacity := by
    have capacity := h.capacity
    simp only [Service.releaseUpgradeReservation]
    omega

theorem Holding.wait {upgrade : Upgrade} (h : Holding options s) (reserves : upgrade.reserves = true) :
    Inv options (s.wait upgrade) where
  fresh := h.fresh
  distinct := h.distinct
  balance := by
    have balance := h.balance
    simp only [Service.wait, List.countP_append, List.countP_singleton, reserves, if_true]
    omega
  capacity := h.capacity

theorem Holding.register (h : Holding options s) : Inv options s.registerSocketConnection where
  fresh socket mem := by
    rcases List.mem_append.mp mem with mem | mem
    · exact Nat.lt_succ_of_lt (h.fresh socket mem)
    · rw [List.mem_singleton.mp mem]
      exact Nat.lt_succ_self _
  distinct := by
    refine List.nodup_append.mpr ⟨h.distinct, List.pairwise_singleton _ _, fun socket mem other mem' => ?_⟩
    rw [List.mem_singleton.mp mem']
    exact Nat.ne_of_lt (h.fresh socket mem)
  balance := h.release.balance
  capacity := by
    have balance := h.balance
    have capacity := h.capacity
    simp only [Service.registerSocketConnection, Service.releaseUpgradeReservation, List.length_append,
      List.length_singleton]
    omega

theorem Holding.destroy (h : Holding options s) : Inv options { s with destroyed := s.destroyed + 1 } where
  fresh := h.fresh
  distinct := h.distinct
  balance := h.balance.trans (Nat.add_assoc ..)
  capacity := h.capacity

theorem tryReserveUpgradeSlot_some (reserved : s.tryReserveUpgradeSlot options = some t) :
    s.socketRegistry.length + s.pendingUpgradeReservations < resolveMaxConnectionCount options ∧
      t = { s with pendingUpgradeReservations := s.pendingUpgradeReservations + 1 } := by
  unfold Service.tryReserveUpgradeSlot at reserved
  split at reserved
  next => cases reserved
  next free => exact ⟨Nat.not_le.mp free, (Option.some.inj reserved).symm⟩

theorem resolveUpgradeRejection_inv (h : Inv options s) : Inv options (s.resolveUpgradeRejection options) := by
  unfold Service.resolveUpgradeRejection
  split
  next => exact h.reject _
  next =>
    split
    next => exact h.reject _
    next t reserved =>
      obtain ⟨free, rfl⟩ := tryReserveUpgradeSlot_some reserved
      have balance := h.balance
      have holding : Holding options { s with pendingUpgradeReservations := s.pendingUpgradeReservations + 1 } :=
        ⟨h.fresh, h.distinct, by dsimp only; omega, by dsimp only; omega⟩
      cases options.guard <;> exact holding.wait rfl

theorem guardSettled_inv (h : Holding options s) (decision : Decision) : Inv options (s.guardSettled decision) := by
  cases decision with
  | admits =>
    unfold Service.guardSettled
    dsimp only
    split
    · exact h.release.reject _
    · exact h.wait rfl
  | refuses | rejects | throwsHttpException => exact h.release.reject _
  | throws => exact h.release.respond _

theorem rejectionResolved_inv (h : Holding options s) (handshake : Handshake) :
    Inv options (s.rejectionResolved handshake none) := by
  unfold Service.rejectionResolved
  dsimp only
  split
  next => exact h.release.respond _
  next =>
    cases handshake with
    | connection => exact h.register
    | throws => exact h.release.respond _
    | destroys => exact h.destroy

theorem step_inv {e : Event} (h : Inv options s) (ht : step options s e = some t) : Inv options t := by
  cases e with
  | upgrade target =>
    cases ht
    cases target with
    | unparsable => exact h.respond _
    | unknown onlyListener => cases onlyListener <;> [exact h; exact h.respond _]
    | gateway => exact resolveUpgradeRejection_inv h
  | guard index decision =>
    simp only [step, Option.ite_none_right_eq_some, Option.some.injEq] at ht
    obtain ⟨here, rfl⟩ := ht
    exact guardSettled_inv (h.take here rfl) decision
  | resume index handshake =>
    simp only [step] at ht
    split at ht
    next rejection here =>
      cases ht
      cases rejection with
      | none => exact rejectionResolved_inv (h.take here rfl) handshake
      | some rejection =>
        have counted := reserves_eraseIdx here
        have taken : Inv options { s with upgrades := s.upgrades.eraseIdx index } :=
          ⟨h.fresh, h.distinct, h.balance.trans (congrArg (· + s.destroyed) counted), h.capacity⟩
        exact taken.respond rejection
    next => cases ht
  | error socket | close socket | terminated socket => cases ht; exact (unregisterSocket_shrinks s socket).inv h
  | heartbeat now isOpen => cases ht; exact (shrinks_foldl (beat_shrinks now isOpen) _ s).inv h
  | broadcastToRoom room isOpen bufferedAmount =>
    cases ht
    exact (shrinks_foldl (broadcast_shrinks isOpen bufferedAmount) _ s).inv h
  | joinRoom socket room isOpen =>
    cases ht
    unfold Service.joinRoom
    split <;> exact ⟨h.fresh, h.distinct, h.balance, h.capacity⟩
  | pong | leaveRoom | shutdown => cases ht; exact ⟨h.fresh, h.distinct, h.balance, h.capacity⟩

theorem run_inv {es : List Event} (run : Run.run (step options) .initial es = some s) : Inv options s := by
  have initial : Inv options .initial := ⟨nofun, List.nodup_nil, rfl, Nat.zero_le _⟩
  exact Run.keeps (fun _ _ _ => step_inv) initial run

/-! ## Refused handshakes -/

/-- In this step the library refuses a handshake that it was handed. -/
def Destroys (s : Service) : Event → Prop
  | .resume index .destroys => s.upgrades[index]? = some (.resolved none) ∧ s.isShuttingDown = false
  | _ => False

instance (s : Service) (e : Event) : Decidable (Destroys s e) := by
  unfold Destroys
  split <;> infer_instance

theorem resolveUpgradeRejection_destroyed : (s.resolveUpgradeRejection options).destroyed = s.destroyed := by
  unfold Service.resolveUpgradeRejection
  split
  next => rfl
  next =>
    split
    next => rfl
    next t reserved =>
      obtain ⟨_, rfl⟩ := tryReserveUpgradeSlot_some reserved
      rfl

theorem guardSettled_destroyed (decision : Decision) : (s.guardSettled decision).destroyed = s.destroyed := by
  unfold Service.guardSettled
  split <;> [rfl; rfl; (split <;> rfl); rfl; rfl]

/-- Only a refused handshake adds to those that the library has destroyed. -/
theorem step_destroyed {e : Event} (ht : step options s e = some t) :
    t.destroyed = s.destroyed + if Destroys s e then 1 else 0 := by
  cases e with
  | upgrade target =>
    cases ht
    cases target with
    | unparsable => rfl
    | unknown onlyListener => cases onlyListener <;> rfl
    | gateway => exact resolveUpgradeRejection_destroyed
  | guard index decision =>
    simp only [step, Option.ite_none_right_eq_some, Option.some.injEq] at ht
    obtain ⟨_, rfl⟩ := ht
    exact guardSettled_destroyed decision
  | resume index handshake =>
    simp only [step] at ht
    split at ht
    next rejection here =>
      cases ht
      cases rejection with
      | some rejection => cases handshake <;> simp [Destroys, here, Service.rejectionResolved,
          Service.rejectUpgradeRequestWithStatus]
      | none =>
        unfold Service.rejectionResolved
        cases down : s.isShuttingDown <;> cases handshake <;> simp [Destroys, here, down,
          Service.rejectUpgradeRequestWithStatus, Service.releaseUpgradeReservation, Service.registerSocketConnection]
    next => cases ht
  | heartbeat now isOpen => cases ht; exact (shrinks_foldl (beat_shrinks now isOpen) _ s).destroyed
  | broadcastToRoom room isOpen bufferedAmount =>
    cases ht
    exact (shrinks_foldl (broadcast_shrinks isOpen bufferedAmount) _ s).destroyed
  | joinRoom socket room isOpen =>
    cases ht
    unfold Service.joinRoom
    split <;> rfl
  | error | close | terminated | pong | leaveRoom | shutdown => cases ht; rfl

theorem destroyed_le {es : List Event} (run : Run.run (step options) s es = some t) : s.destroyed ≤ t.destroyed := by
  induction es generalizing s with
  | nil => cases run; exact Nat.le_refl _
  | cons e es ih =>
    obtain ⟨u, here, run⟩ := Run.run_cons run
    have counted := step_destroyed here
    have later := ih run
    omega

/-- No handshake was refused in a run that has destroyed none. -/
theorem throughout_iff {es : List Event} (run : Run.run (step options) s es = some t) :
    Run.Throughout (step options) (fun s e => ¬Destroys s e) s es ↔ t.destroyed = s.destroyed := by
  induction es generalizing s with
  | nil => cases run; exact iff_of_true trivial rfl
  | cons e es ih =>
    obtain ⟨u, here, run⟩ := Run.run_cons run
    have counted := step_destroyed here
    have later := destroyed_le run
    have rest := ih run
    constructor
    · intro ⟨clean, careful⟩
      rw [rest.mp (careful u here), counted, if_neg clean, Nat.add_zero]
    · intro same
      have clean : ¬Destroys s e := by
        intro destroys
        rw [if_pos destroys] at counted
        omega
      rw [if_neg clean] at counted
      refine ⟨clean, fun v hv => ?_⟩
      obtain rfl : u = v := Option.some.inj (here.symm.trans hv)
      exact rest.mpr (by omega)

/-! ## Admission -/

/-- Sockets and reservations never exceed the limit. When no upgrade is under way
nothing is reserved exactly when the library has refused no handshake, and then an
upgrade is turned away only by registered sockets. -/
theorem slots_conserved (options : ModuleOptions) {es : List Event} {s : Service}
    (run : Run.run (step options) .initial es = some s) :
    s.socketRegistry.length + s.pendingUpgradeReservations ≤ resolveMaxConnectionCount options ∧
    (s.upgrades = [] →
      (s.pendingUpgradeReservations = 0 ↔ Run.Throughout (step options) (fun s e => ¬Destroys s e) .initial es)) ∧
    (Run.Throughout (step options) (fun s e => ¬Destroys s e) .initial es → s.upgrades = [] →
      s.socketRegistry.length < resolveMaxConnectionCount options →
        ∀ t, step options s (.upgrade .gateway) = some t → .resolved (some limitExceeded) ∉ t.upgrades) := by
  have inv := run_inv run
  have refused := throughout_iff run
  have balance := inv.balance
  have quiet (none : s.upgrades = []) : s.pendingUpgradeReservations = s.destroyed := by
    rw [balance, none, List.countP_nil, Nat.zero_add]
  refine ⟨inv.capacity, fun none => ?_, fun clean none free t ht => ?_⟩
  · rw [quiet none, refused]
    rfl
  · cases ht
    have unreserved : s.pendingUpgradeReservations = 0 := (quiet none).trans (refused.mp clean)
    have admits : ¬resolveMaxConnectionCount options ≤ s.resolveReservedConnectionCount := by
      simp only [Service.resolveReservedConnectionCount]
      omega
    simp only [Service.handleUpgradeRequest, Service.resolveUpgradeRejection, Service.tryReserveUpgradeSlot, if_neg admits]
    split
    next => simp [Service.wait, none, shuttingDown, limitExceeded]
    next => cases options.guard <;> simp [Service.wait, none]

theorem slots_conserved_guarded :
    ∃ s, Run.run (step ⟨some 1, true, 0, none, false⟩) .initial
        [.upgrade .gateway, .upgrade .gateway, .guard 0 .admits, .resume 0 .destroys, .resume 0 .connection,
          .heartbeat 0 fun _ => true, .heartbeat 5 fun _ => true] = some s ∧
      s.socketRegistry = [] ∧ s.responses = [limitExceeded] ∧ s.pendingUpgradeReservations = 0 := by
  have run : Run.run (step ⟨some 1, true, 0, none, false⟩) .initial
      [.upgrade .gateway, .upgrade .gateway, .guard 0 .admits, .resume 0 .destroys, .resume 0 .connection,
        .heartbeat 0 fun _ => true, .heartbeat 5 fun _ => true] = some _ := rfl
  refine ⟨_, run, rfl, rfl, ((slots_conserved _ run).2.1 rfl).mpr ?_⟩
  decide

/-- A handshake that the library refuses takes the only slot for good. -/
theorem refused_handshake_locks :
    ∃ s, Run.run (step ⟨some 1, false, 0, none, false⟩) .initial [.upgrade .gateway, .resume 0 .destroys] = some s ∧
      s.upgrades = [] ∧ s.pendingUpgradeReservations = 1 ∧ s.socketRegistry.length < 1 ∧
      ∃ t, step ⟨some 1, false, 0, none, false⟩ s (.upgrade .gateway) = some t ∧
        .resolved (some limitExceeded) ∈ t.upgrades := by
  refine ⟨_, rfl, rfl, rfl, Nat.one_pos, _, rfl, ?_⟩
  decide

end Fluo.Websockets.Admission
