import Fluo.Lib.Run

/-!
# Admission of websocket connections

Upgrade requests, the reservations they hold and the sockets that are registered.
An upgrade that is under way waits for the guard or for its own continuation;
between two such points the service runs alone. `handleUpgrade` of the websocket
library completes within its call.
-/

namespace Fluo.Websockets.Admission

structure WebSocketUpgradeRejection where
  body : String
  status : Nat
  deriving DecidableEq

def shuttingDown : WebSocketUpgradeRejection := ⟨"WebSocket server is shutting down.", 503⟩
def limitExceeded : WebSocketUpgradeRejection := ⟨"WebSocket connection limit exceeded.", 429⟩
def upgradeRejected : WebSocketUpgradeRejection := ⟨"WebSocket upgrade rejected.", 403⟩
def internalServerError : WebSocketUpgradeRejection := ⟨"Internal server error", 500⟩
/-- `rejectBadUpgradeRequest` and `rejectUpgradeRequest`. -/
def badRequest : WebSocketUpgradeRejection := ⟨"", 400⟩
def notFound : WebSocketUpgradeRejection := ⟨"", 404⟩

/-- The module's options; `none` for what is not a finite positive integer. -/
structure ModuleOptions where
  maxConnections : Option Nat
  guard : Bool
  heartbeatTimeoutMs : Nat
  maxBufferedAmountBytes : Option Nat
  closeOnBackpressure : Bool

def resolveMaxConnectionCount (options : ModuleOptions) : Nat :=
  match options.maxConnections with
  | some (n + 1) => n + 1
  | _ => 1000

def resolveMaxBufferedAmount (options : ModuleOptions) : Nat :=
  match options.maxBufferedAmountBytes with
  | some (n + 1) => n + 1
  | _ => 1048576

inductive Decision where
  | admits
  | refuses
  | rejects (rejection : WebSocketUpgradeRejection)
  | throwsHttpException (message : String) (status : Nat)
  | throws
  deriving DecidableEq

/-- What `handleUpgrade` does: it calls back with a socket, throws, or destroys
the socket. -/
inductive Handshake where
  | connection
  | throws
  | destroys
  deriving DecidableEq

/-- Where `handleUpgradeRequest` waits: for the guard, or to go on with what
`resolveUpgradeRejection` returned. -/
inductive Upgrade where
  | guarding
  | resolved (rejection : Option WebSocketUpgradeRejection)
  deriving DecidableEq

inductive Target where
  | unparsable
  | unknown (onlyListener : Bool)
  | gateway
  deriving DecidableEq

structure Service where
  isShuttingDown : Bool
  pendingUpgradeReservations : Nat
  socketRegistry : List Nat
  /-- Socket identifiers are drawn in order. -/
  nextSocketId : Nat
  /-- When a ping was sent that has not been answered. -/
  pingSentAt : List (Nat × Nat)
  roomSockets : List (Nat × Nat)
  upgrades : List Upgrade
  responses : List WebSocketUpgradeRejection
  destroyed : Nat

namespace Service

def initial : Service := ⟨false, 0, [], 0, [], [], [], [], 0⟩

def resolveReservedConnectionCount (s : Service) : Nat :=
  s.socketRegistry.length + s.pendingUpgradeReservations

def tryReserveUpgradeSlot (options : ModuleOptions) (s : Service) : Option Service :=
  if resolveMaxConnectionCount options ≤ s.resolveReservedConnectionCount then none
  else some { s with pendingUpgradeReservations := s.pendingUpgradeReservations + 1 }

def releaseUpgradeReservation (s : Service) : Service :=
  { s with pendingUpgradeReservations := s.pendingUpgradeReservations - 1 }

def rejectUpgradeRequestWithStatus (s : Service) (rejection : WebSocketUpgradeRejection) : Service :=
  { s with responses := rejection :: s.responses }

def unregisterSocket (s : Service) (socket : Nat) : Service :=
  { s with
    socketRegistry := s.socketRegistry.filter (· ≠ socket)
    pingSentAt := s.pingSentAt.filter (·.1 ≠ socket)
    roomSockets := s.roomSockets.filter (·.2 ≠ socket) }

def registerSocketConnection (s : Service) : Service :=
  let s := s.releaseUpgradeReservation
  { s with socketRegistry := s.socketRegistry ++ [s.nextSocketId], nextSocketId := s.nextSocketId + 1 }

def wait (s : Service) (upgrade : Upgrade) : Service := { s with upgrades := s.upgrades ++ [upgrade] }

/-- `resolveUpgradeRejection` up to the guard. -/
def resolveUpgradeRejection (options : ModuleOptions) (s : Service) : Service :=
  if s.isShuttingDown then s.wait (.resolved (some shuttingDown))
  else match s.tryReserveUpgradeSlot options with
    | none => s.wait (.resolved (some limitExceeded))
    | some s => s.wait (if options.guard then .guarding else .resolved none)

/-- `handleUpgradeRequest` up to its first `await`. -/
def handleUpgradeRequest (options : ModuleOptions) (s : Service) : Target → Service
  | .unparsable => s.rejectUpgradeRequestWithStatus badRequest
  | .unknown onlyListener => if onlyListener then s.rejectUpgradeRequestWithStatus notFound else s
  | .gateway => s.resolveUpgradeRejection options

/-- `resolveUpgradeRejection` behind the guard. -/
def guardSettled (s : Service) : Decision → Service
  | .throwsHttpException message status =>
    s.releaseUpgradeReservation.wait (.resolved (some ⟨message, status⟩))
  | .throws => s.releaseUpgradeReservation.rejectUpgradeRequestWithStatus internalServerError
  | .admits =>
    if s.isShuttingDown then s.releaseUpgradeReservation.wait (.resolved (some shuttingDown))
    else s.wait (.resolved none)
  | .refuses =>
    s.releaseUpgradeReservation.wait (.resolved (some (if s.isShuttingDown then shuttingDown else upgradeRejected)))
  | .rejects rejection =>
    s.releaseUpgradeReservation.wait (.resolved (some (if s.isShuttingDown then shuttingDown else rejection)))

/-- `handleUpgradeRequest` behind `resolveUpgradeRejection`. -/
def rejectionResolved (s : Service) (handshake : Handshake) : Option WebSocketUpgradeRejection → Service
  | some rejection => s.rejectUpgradeRequestWithStatus rejection
  | none =>
    if s.isShuttingDown then s.releaseUpgradeReservation.rejectUpgradeRequestWithStatus shuttingDown
    else match handshake with
      | .connection => s.registerSocketConnection
      | .throws => s.releaseUpgradeReservation.rejectUpgradeRequestWithStatus internalServerError
      | .destroys => { s with destroyed := s.destroyed + 1 }

/-- One socket in a beat: a late one is terminated, an open one is pinged. -/
def beat (options : ModuleOptions) (now : Nat) (isOpen : Nat → Bool) (s : Service) (socket : Nat) : Service :=
  match s.pingSentAt.find? (·.1 = socket) with
  | some (_, sentAt) => if options.heartbeatTimeoutMs ≤ now - sentAt then s.unregisterSocket socket else s
  | none => if isOpen socket then { s with pingSentAt := (socket, now) :: s.pingSentAt } else s

def heartbeat (options : ModuleOptions) (now : Nat) (isOpen : Nat → Bool) (s : Service) : Service :=
  s.socketRegistry.foldl (beat options now isOpen) s

/-- One socket of a room: one that is open and does not read is terminated. -/
def broadcast (options : ModuleOptions) (isOpen : Nat → Bool) (bufferedAmount : Nat → Nat) (s : Service)
    (socket : Nat) : Service :=
  if socket ∈ s.socketRegistry ∧ isOpen socket = true ∧ resolveMaxBufferedAmount options < bufferedAmount socket ∧
      options.closeOnBackpressure = true then s.unregisterSocket socket else s

def broadcastToRoom (options : ModuleOptions) (isOpen : Nat → Bool) (bufferedAmount : Nat → Nat) (s : Service)
    (room : Nat) : Service :=
  ((s.roomSockets.filter (·.1 = room)).map Prod.snd).foldl (broadcast options isOpen bufferedAmount) s

def joinRoom (s : Service) (socket room : Nat) (isOpen : Bool) : Service :=
  if socket ∈ s.socketRegistry ∧ isOpen = true ∧ (room, socket) ∉ s.roomSockets then
    { s with roomSockets := s.roomSockets ++ [(room, socket)] }
  else s

def leaveRoom (s : Service) (socket room : Nat) : Service :=
  { s with roomSockets := s.roomSockets.filter (· ≠ (room, socket)) }

end Service

inductive Event where
  | upgrade (target : Target)
  | guard (index : Nat) (decision : Decision)
  /-- An upgrade goes on; the handshake is what the library does if it gets there. -/
  | resume (index : Nat) (handshake : Handshake)
  | error (socket : Nat)
  | close (socket : Nat)
  /-- Too many messages of a socket wait, or it is closed when they are replayed. -/
  | terminated (socket : Nat)
  | pong (socket : Nat)
  | heartbeat (now : Nat) (isOpen : Nat → Bool)
  | broadcastToRoom (room : Nat) (isOpen : Nat → Bool) (bufferedAmount : Nat → Nat)
  | joinRoom (socket room : Nat) (isOpen : Bool)
  | leaveRoom (socket room : Nat)
  | shutdown

def step (options : ModuleOptions) (s : Service) : Event → Option Service
  | .upgrade target => some (s.handleUpgradeRequest options target)
  | .guard index decision =>
    if s.upgrades[index]? = some .guarding then
      some ({ s with upgrades := s.upgrades.eraseIdx index }.guardSettled decision)
    else none
  | .resume index handshake =>
    match s.upgrades[index]? with
    | some (.resolved rejection) =>
      some ({ s with upgrades := s.upgrades.eraseIdx index }.rejectionResolved handshake rejection)
    | _ => none
  | .error socket | .close socket | .terminated socket => some (s.unregisterSocket socket)
  | .pong socket => some { s with pingSentAt := s.pingSentAt.filter (·.1 ≠ socket) }
  | .heartbeat now isOpen => some (s.heartbeat options now isOpen)
  | .broadcastToRoom room isOpen bufferedAmount => some (s.broadcastToRoom options isOpen bufferedAmount room)
  | .joinRoom socket room isOpen => some (s.joinRoom socket room isOpen)
  | .leaveRoom socket room => some (s.leaveRoom socket room)
  | .shutdown => some { s with isShuttingDown := true }

end Fluo.Websockets.Admission
