import Fluo.Lib.JsString
import Fluo.Lib.SetMap

/-!
# Rooms of fetch-style gateways

`WebSocketRoomIndex` keeps the rooms of each socket and the sockets of each
room. The gateway service joins, broadcasts and unregisters through it.
-/

namespace Fluo.Websockets.Rooms

open Fluo.Js

structure WebSocketRoomIndex where
  roomSockets : SetMap JsString JsString
  socketRooms : SetMap JsString JsString

namespace WebSocketRoomIndex

def empty : WebSocketRoomIndex := ⟨.empty, .empty⟩

def join (index : WebSocketRoomIndex) (socketId room : JsString) : WebSocketRoomIndex :=
  ⟨index.roomSockets.add room socketId, index.socketRooms.add socketId room⟩

def leave (index : WebSocketRoomIndex) (socketId room : JsString) : WebSocketRoomIndex :=
  ⟨index.roomSockets.remove room socketId, index.socketRooms.remove socketId room⟩

/-- The loop takes each room out of the set that it goes through, and so visits
the rooms that are there when it starts. -/
def removeSocket (index : WebSocketRoomIndex) (socketId : JsString) : WebSocketRoomIndex :=
  match index.socketRooms.get socketId with
  | none => index
  | some rooms => rooms.keys.foldl (fun index room => index.leave socketId room) index

def getRooms (index : WebSocketRoomIndex) (socketId : JsString) : OrderedSet JsString :=
  (index.socketRooms.get socketId).getD .empty

def getSockets (index : WebSocketRoomIndex) (room : JsString) : Option (OrderedSet JsString) :=
  index.roomSockets.get room

/-- Both maps are the membership of sockets in rooms. -/
structure Holds (index : WebSocketRoomIndex) (member : JsString → JsString → Prop) : Prop where
  sockets : index.roomSockets.Denotes fun room socketId => member socketId room
  rooms : index.socketRooms.Denotes member

variable {index : WebSocketRoomIndex} {member : JsString → JsString → Prop}

theorem holds_empty : empty.Holds fun _ _ => False := ⟨SetMap.denotes_empty, SetMap.denotes_empty⟩

theorem Holds.congr {member' : JsString → JsString → Prop} (h : index.Holds member)
    (same : ∀ socketId room, member socketId room ↔ member' socketId room) : index.Holds member' :=
  ⟨h.sockets.congr fun room socketId => same socketId room, h.rooms.congr same⟩

theorem Holds.join (h : index.Holds member) (socketId room : JsString) :
    (index.join socketId room).Holds fun x r => member x r ∨ x = socketId ∧ r = room :=
  ⟨(h.sockets.add room socketId).congr fun _ _ => or_congr_right and_comm, h.rooms.add socketId room⟩

theorem Holds.leave (h : index.Holds member) (socketId room : JsString) :
    (index.leave socketId room).Holds fun x r => member x r ∧ ¬ (x = socketId ∧ r = room) :=
  ⟨(h.sockets.remove room socketId).congr fun _ _ => and_congr_right' (not_congr and_comm), h.rooms.remove socketId room⟩

theorem Holds.leaveAll (h : index.Holds member) (socketId : JsString) (rooms : List JsString) :
    (rooms.foldl (fun index room => index.leave socketId room) index).Holds fun x r =>
      member x r ∧ ¬ (x = socketId ∧ r ∈ rooms) := by
  induction rooms generalizing index member with
  | nil => exact h.congr fun x r => by simp
  | cons room rooms ih =>
    refine (ih (h.leave socketId room)).congr fun x r => ?_
    simp only [List.mem_cons, not_and, not_or]
    exact ⟨fun both => ⟨both.1.1, fun own => ⟨both.1.2 own, both.2 own⟩⟩,
      fun both => ⟨⟨both.1, fun own => (both.2 own).1⟩, fun own => (both.2 own).2⟩⟩

theorem Holds.removeSocket (h : index.Holds member) (socketId : JsString) :
    (index.removeSocket socketId).Holds fun x r => member x r ∧ x ≠ socketId := by
  unfold WebSocketRoomIndex.removeSocket
  split
  · next absent =>
    have nowhere := (h.rooms.get_none socketId).mp absent
    refine h.congr fun x r => ⟨fun is => ⟨is, ?_⟩, And.left⟩
    rintro rfl
    exact nowhere r is
  · next rooms found =>
    refine (h.leaveAll socketId rooms.keys).congr fun x r => and_congr_right fun is => ?_
    refine ⟨?_, fun other own => other own.1⟩
    rintro stays rfl
    have mem := (h.rooms.rows x r).mpr is
    rw [SetMap.row, found] at mem
    exact stays ⟨rfl, mem⟩

end WebSocketRoomIndex

/-! ## The service -/

structure Service where
  /-- The `readyState` of each registered socket. -/
  socketRegistry : OrderedMap JsString Nat
  roomIndex : WebSocketRoomIndex
  /-- The sockets that broadcasts were sent to, the earliest first. -/
  sent : List JsString

def Service.initial : Service := ⟨.empty, .empty, []⟩

namespace Service

def joinRoom (s : Service) (socketId room : JsString) : Service :=
  match s.socketRegistry.get socketId with
  | some 1 => { s with roomIndex := s.roomIndex.join socketId room }
  | _ => s

def leaveRoom (s : Service) (socketId room : JsString) : Service :=
  { s with roomIndex := s.roomIndex.leave socketId room }

def unregisterSocket (s : Service) (socketId : JsString) : Service :=
  { s with socketRegistry := s.socketRegistry.erase socketId, roomIndex := s.roomIndex.removeSocket socketId }

/-- One turn of the broadcast's loop; a socket that drops the message is
unregistered, if that has not been done for it before. -/
def send (drops : JsString → Bool) (s : Service) (socketId : JsString) : Service :=
  match s.socketRegistry.get socketId with
  | some 1 =>
    let s := { s with sent := s.sent ++ [socketId] }
    if drops socketId then s.unregisterSocket socketId else s
  | _ => s

/-- The loop goes through the room itself, from which a turn takes no socket but its own. -/
def broadcastToRoom (s : Service) (room : JsString) (drops : JsString → Bool) : Service :=
  match s.roomIndex.getSockets room with
  | none => s
  | some socketIds => socketIds.keys.foldl (send drops) s

end Service

/-- What the service is asked for, and what sockets do. -/
inductive Event where
  | registered (socketId : JsString)
  | readyStateChanged (socketId : JsString) (readyState : Nat)
  | joinRoom (socketId room : JsString)
  | leaveRoom (socketId room : JsString)
  | broadcastToRoom (room : JsString) (drops : JsString → Bool)
  | unregisterSocket (socketId : JsString)
  | shutdown

def Service.step (s : Service) : Event → Service
  | .registered socketId => { s with socketRegistry := s.socketRegistry.set socketId 1 }
  | .readyStateChanged socketId readyState =>
    if s.socketRegistry.has socketId then { s with socketRegistry := s.socketRegistry.set socketId readyState } else s
  | .joinRoom socketId room => s.joinRoom socketId room
  | .leaveRoom socketId room => s.leaveRoom socketId room
  | .broadcastToRoom room drops => s.broadcastToRoom room drops
  | .unregisterSocket socketId => s.unregisterSocket socketId
  | .shutdown => { s with socketRegistry := .empty, roomIndex := .empty }

/-! ## Rooms as a relation -/

/-- Who is registered, and who is in which room. -/
structure Membership where
  registry : JsString → Option Nat
  member : JsString → JsString → Prop

namespace Membership

def initial : Membership := ⟨fun _ => none, fun _ _ => False⟩

def isOpen (a : Membership) (socketId : JsString) : Prop := a.registry socketId = some 1

instance (a : Membership) (socketId : JsString) : Decidable (a.isOpen socketId) :=
  inferInstanceAs (Decidable (a.registry socketId = some 1))

/-- Those that leave are not registered and in no room. -/
def without (a : Membership) (gone : JsString → Prop) [DecidablePred gone] : Membership where
  registry x := if gone x then none else a.registry x
  member x room := a.member x room ∧ ¬ gone x

open Classical in
noncomputable def step (a : Membership) : Event → Membership
  | .registered socketId => { a with registry := fun x => if x = socketId then some 1 else a.registry x }
  | .readyStateChanged socketId readyState => { a with
      registry := fun x => if x = socketId then (a.registry x).map fun _ => readyState else a.registry x }
  | .joinRoom socketId room => { a with member := fun x r => a.member x r ∨ a.isOpen x ∧ x = socketId ∧ r = room }
  | .leaveRoom socketId room => { a with member := fun x r => a.member x r ∧ ¬ (x = socketId ∧ r = room) }
  | .broadcastToRoom room drops => a.without fun x => a.member x room ∧ a.isOpen x ∧ drops x = true
  | .unregisterSocket socketId => a.without (· = socketId)
  | .shutdown => initial

end Membership

/-- The service keeps the membership, and only registered sockets are in rooms. -/
structure Refines (s : Service) (a : Membership) : Prop where
  registry : ∀ socketId, s.socketRegistry.get socketId = a.registry socketId
  index : s.roomIndex.Holds a.member
  registered : ∀ socketId room, a.member socketId room → a.registry socketId ≠ none

variable {s : Service} {a : Membership} {p q : JsString → Prop} [DecidablePred p] [DecidablePred q]

theorem refines_initial : Refines .initial .initial :=
  ⟨fun _ => rfl, WebSocketRoomIndex.holds_empty, fun _ _ => False.elim⟩

theorem Refines.without (h : Refines s a) {t : Service} {gone : JsString → Prop} [DecidablePred gone]
    (registry : ∀ x, t.socketRegistry.get x = if gone x then none else a.registry x)
    (index : t.roomIndex.Holds fun x room => a.member x room ∧ ¬ gone x) : Refines t (a.without gone) := by
  refine ⟨registry, index, fun x room member => ?_⟩
  have stays : (a.without gone).registry x = a.registry x := if_neg member.2
  rw [stays]
  exact h.registered x room member.1

theorem Refines.unregister (h : Refines s a) (socketId : JsString) :
    Refines (s.unregisterSocket socketId) (a.without (· = socketId)) := by
  refine h.without (fun x => ?_) (h.index.removeSocket socketId)
  rw [Service.unregisterSocket, OrderedMap.get_erase, h.registry]

theorem Refines.without_without (h : Refines s ((a.without p).without q)) {gone : JsString → Prop}
    [DecidablePred gone] (same : ∀ x, gone x ↔ p x ∨ q x) : Refines s (a.without gone) := by
  have registry (x : JsString) : ((a.without p).without q).registry x = (a.without gone).registry x := by
    simp only [Membership.without, same]
    by_cases hp : p x <;> by_cases hq : q x <;> simp [hp, hq]
  have member (x room : JsString) :
      ((a.without p).without q).member x room ↔ (a.without gone).member x room := by
    simp only [Membership.without, same, not_or, and_assoc]
  refine ⟨fun x => (h.registry x).trans (registry x), h.index.congr member, fun x room is => ?_⟩
  rw [← registry]
  exact h.registered x room ((member x room).mpr is)

theorem Refines.without_congr (h : Refines s (a.without p)) (same : ∀ x, q x ↔ p x) : Refines s (a.without q) := by
  have equal : a.without q = a.without p := by
    simp only [Membership.without, same]
  rw [equal]
  exact h

theorem Refines.without_none (h : Refines s a) (stay : ∀ x, ¬ q x) : Refines s (a.without q) :=
  h.without (fun x => by rw [if_neg (stay x), h.registry]) (h.index.congr fun x room => by simp [stay])

theorem Refines.send (h : Refines s a) (drops : JsString → Bool) (socketId : JsString) :
    (Service.send drops s socketId).sent = s.sent ++ (if a.isOpen socketId then [socketId] else []) ∧
    Refines (Service.send drops s socketId)
      (a.without fun x => x = socketId ∧ a.isOpen socketId ∧ drops socketId = true) := by
  by_cases opened : a.isOpen socketId
  · have found : s.socketRegistry.get socketId = some 1 := (h.registry socketId).trans opened
    have told : Refines { s with sent := s.sent ++ [socketId] } a := ⟨h.registry, h.index, h.registered⟩
    simp only [Service.send, found, if_pos opened]
    cases dropped : drops socketId with
    | true => exact ⟨rfl, (told.unregister socketId).without_congr fun x => by simp [opened]⟩
    | false => exact ⟨rfl, told.without_none fun x => by simp⟩
  · have same : Service.send drops s socketId = s := by
      unfold Service.send
      split
      · next found => exact absurd ((h.registry socketId).symm.trans found) opened
      · rfl
    rw [same]
    exact ⟨by simp [opened], h.without_none fun x => by simp [opened]⟩

/-- The turns of a broadcast: each open socket is sent the message once, and those that drop it go. -/
theorem Refines.sends (h : Refines s a) (drops : JsString → Bool) (l : List JsString) (distinct : l.Nodup) :
    (∃ told, (l.foldl (Service.send drops) s).sent = s.sent ++ told ∧ told.Nodup ∧
      ∀ x, x ∈ told ↔ x ∈ l ∧ a.isOpen x) ∧
    Refines (l.foldl (Service.send drops) s) (a.without fun x => x ∈ l ∧ a.isOpen x ∧ drops x = true) := by
  induction l generalizing s a with
  | nil => exact ⟨⟨[], by simp, List.nodup_nil, by simp⟩, h.without_none fun x => by simp⟩
  | cons first l ih =>
    obtain ⟨fresh, distinct⟩ := List.nodup_cons.mp distinct
    obtain ⟨sent, turn⟩ := h.send drops first
    obtain ⟨⟨told, rest, once, whom⟩, after⟩ := ih turn distinct
    have opens (x : JsString) (mem : x ∈ l) :
        (a.without fun x => x = first ∧ a.isOpen first ∧ drops first = true).isOpen x ↔ a.isOpen x := by
      have other : x ≠ first := fun same => fresh (same ▸ mem)
      simp [Membership.isOpen, Membership.without, other]
    have whom' (x : JsString) : x ∈ told ↔ x ∈ l ∧ a.isOpen x := (whom x).trans (and_congr_right (opens x))
    refine ⟨⟨(if a.isOpen first then [first] else []) ++ told, ?_, ?_, fun x => ?_⟩, ?_⟩
    · rw [List.foldl_cons, rest, sent, List.append_assoc]
    · split
      · exact List.nodup_cons.mpr ⟨fun mem => fresh ((whom' first).mp mem).1, once⟩
      · exact once
    · rw [List.mem_append, whom', List.mem_cons]
      by_cases same : x = first
      · subst same
        by_cases opened : a.isOpen x <;> simp [opened]
      · split <;> simp [same]
    · refine after.without_without fun x => ?_
      rw [List.mem_cons]
      by_cases same : x = first
      · subst same
        simp [fresh]
      · by_cases mem : x ∈ l
        · simp [same, mem, opens x mem]
        · simp [same, mem]

/-! ## Runs -/

theorem Refines.broadcast (h : Refines s a) (room : JsString) (drops : JsString → Bool) :
    (∃ told, (s.broadcastToRoom room drops).sent = s.sent ++ told ∧ told.Nodup ∧
      ∀ x, x ∈ told ↔ a.member x room ∧ a.isOpen x) ∧
    Refines (s.broadcastToRoom room drops) (a.step (.broadcastToRoom room drops)) := by
  classical
  have rows (x : JsString) : x ∈ s.roomIndex.roomSockets.row room ↔ a.member x room := h.index.sockets.rows room x
  unfold Service.broadcastToRoom WebSocketRoomIndex.getSockets
  cases found : s.roomIndex.roomSockets.get room with
  | none =>
    have nobody (x : JsString) : ¬ a.member x room := (h.index.sockets.get_none room).mp found x
    exact ⟨⟨[], by simp, List.nodup_nil, by simp [nobody]⟩, h.without_none fun x => by simp [nobody]⟩
  | some socketIds =>
    simp only [SetMap.row, found, Option.map_some, Option.getD_some] at rows
    obtain ⟨⟨told, sent, once, whom⟩, after⟩ := h.sends drops socketIds.keys socketIds.distinct
    exact ⟨⟨told, sent, once, fun x => (whom x).trans (and_congr_left' (rows x))⟩,
      after.without_congr fun x => and_congr_left' (rows x).symm⟩

theorem Refines.step (h : Refines s a) (e : Event) : Refines (s.step e) (a.step e) := by
  cases e with
  | registered socketId =>
    refine ⟨fun x => ?_, h.index, fun x room member => ?_⟩
    · simp only [Service.step, Membership.step, OrderedMap.get_set, h.registry]
    · simp only [Membership.step]
      split
      · exact Option.some_ne_none 1
      · exact h.registered x room member
  | readyStateChanged socketId readyState =>
    have known : s.socketRegistry.has socketId = (a.registry socketId).isSome := by rw [OrderedMap.has, h.registry]
    refine ⟨fun x => ?_, ?_, fun x room member => ?_⟩
    · simp only [Service.step, Membership.step, known]
      cases found : a.registry socketId with
      | none =>
        by_cases same : x = socketId
        · subst same
          simp [h.registry, found]
        · simp [h.registry, same]
      | some before =>
        by_cases same : x = socketId
        · subst same
          simp [found]
        · simp [OrderedMap.get_set, h.registry, same]
    · simp only [Service.step]
      split <;> exact h.index
    · have known := h.registered x room member
      simp only [Membership.step]
      split
      · simpa using known
      · exact known
  | joinRoom socketId room =>
    by_cases opened : a.isOpen socketId
    · have found : s.socketRegistry.get socketId = some 1 := (h.registry socketId).trans opened
      simp only [Service.step, Service.joinRoom, found]
      refine ⟨h.registry, (h.index.join socketId room).congr fun x r => or_congr_right ?_, fun x r member => ?_⟩
      · refine ⟨?_, And.right⟩
        rintro ⟨rfl, rfl⟩
        exact ⟨opened, rfl, rfl⟩
      · rcases member with member | ⟨opened, -⟩
        · exact h.registered x r member
        · exact fun none => by cases none.symm.trans opened
    · have same : s.joinRoom socketId room = s := by
        unfold Service.joinRoom
        split
        · next found => exact absurd ((h.registry socketId).symm.trans found) opened
        · rfl
      have nobody (x r : JsString) : ¬ (a.isOpen x ∧ x = socketId ∧ r = room) := by
        rintro ⟨opened', rfl, -⟩
        exact opened opened'
      rw [Service.step, same]
      refine ⟨h.registry, h.index.congr fun x r => ?_, fun x r member => ?_⟩
      · simp [Membership.step, nobody]
      · exact h.registered x r (member.resolve_right (nobody x r))
  | leaveRoom socketId room =>
    exact ⟨h.registry, h.index.leave socketId room, fun x r member => h.registered x r member.1⟩
  | broadcastToRoom room drops => exact (h.broadcast room drops).2
  | unregisterSocket socketId => exact (h.unregister socketId).without_congr fun _ => Iff.rfl
  | shutdown => exact ⟨fun _ => rfl, WebSocketRoomIndex.holds_empty, fun _ _ => False.elim⟩

/-- After any calls the two maps of the index are one membership, which the calls determine: no empty set is kept,
a socket in a room is registered, and a broadcast sends to each open socket of its room once. -/
theorem rooms_refine (es : List Event) :
    let s := es.foldl Service.step .initial
    let a := es.foldl Membership.step .initial
    (∀ socketId, s.socketRegistry.get socketId = a.registry socketId) ∧
    (∀ socketId room, ((s.roomIndex.getRooms socketId).has room = true ↔ a.member socketId room) ∧
      ((s.roomIndex.getSockets room).any (·.has socketId) = true ↔ a.member socketId room) ∧
      (a.member socketId room → a.registry socketId ≠ none)) ∧
    (∀ socketId, s.roomIndex.socketRooms.get socketId = none ↔ ∀ room, ¬ a.member socketId room) ∧
    (∀ room, s.roomIndex.getSockets room = none ↔ ∀ socketId, ¬ a.member socketId room) ∧
    ∀ room drops, ∃ told, (s.broadcastToRoom room drops).sent = s.sent ++ told ∧ told.Nodup ∧
      ∀ socketId, socketId ∈ told ↔ a.member socketId room ∧ a.isOpen socketId := by
  intro s a
  have h : Refines s a := by
    have along (es : List Event) (s : Service) (a : Membership) (h : Refines s a) :
        Refines (es.foldl Service.step s) (es.foldl Membership.step a) := by
      induction es generalizing s a with
      | nil => exact h
      | cons e es ih => exact ih _ _ (h.step e)
    exact along es _ _ refines_initial
  refine ⟨h.registry, fun socketId room => ⟨?_, ?_, h.registered socketId room⟩, h.index.rooms.get_none,
    h.index.sockets.get_none, fun room drops => (h.broadcast room drops).1⟩
  · rw [← h.index.rooms.rows socketId room, SetMap.row, WebSocketRoomIndex.getRooms]
    cases s.roomIndex.socketRooms.get socketId with
    | none => simp [OrderedMap.has]
    | some rooms => simp [OrderedMap.mem_keys]
  · rw [← h.index.sockets.rows room socketId, SetMap.row, WebSocketRoomIndex.getSockets]
    cases s.roomIndex.roomSockets.get room with
    | none => simp
    | some sockets => simp [OrderedMap.mem_keys]

end Fluo.Websockets.Rooms
