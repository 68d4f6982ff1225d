/-
# LMCache.EventManager — the loading events of the requests, by status.

Source: `v1/event_manager.py`.  There is one type of event, `LOADING`.  An event is a future; what a
future is, is left open here.
-/
import LMCache.PyError
import LMCache.Lib.Dict

namespace LMCache

open LMCache.Lib

inductive EventStatus where
  | ongoing | done | notFound
  deriving DecidableEq, Repr

/-- The events of type `LOADING`: status → id → future. -/
structure EventManager (φ : Type) where
  ongoing : Dict String φ
  done : Dict String φ
  notFound : Dict String φ

namespace EventManager

variable {φ : Type}

def empty : EventManager φ := ⟨.empty, .empty, .empty⟩

/-- The dictionary of one status. -/
def events (m : EventManager φ) : EventStatus → Dict String φ
  | .ongoing => m.ongoing
  | .done => m.done
  | .notFound => m.notFound

/-- The manager with the dictionary of one status changed. -/
def setEvents (m : EventManager φ) (s : EventStatus) (d : Dict String φ) : EventManager φ :=
  match s with
  | .ongoing => { m with ongoing := d }
  | .done => { m with done := d }
  | .notFound => { m with notFound := d }

@[simp] theorem events_setEvents (m : EventManager φ) (s t : EventStatus) (d : Dict String φ) :
    (m.setEvents s d).events t = if t = s then d else m.events t := by
  cases s <;> cases t <;> rfl

/-- `add_event`. -/
def addEvent (m : EventManager φ) (eventId : String) (future : φ) : EventManager φ :=
  m.setEvents .ongoing (m.ongoing.set eventId future)

/-- The message of the assertion in `pop_event`. -/
def popMessage (eventId : String) : String :=
  s!"Event {eventId} of type EventType.LOADING is not done or not found."

/-- `pop_event`: only an event that is done can be popped. -/
def popEvent (m : EventManager φ) (eventId : String) : Except PyError (φ × EventManager φ) :=
  match m.done.get? eventId with
  | none => .error (.assertionError (popMessage eventId))
  | some future => .ok (future, m.setEvents .done (m.done.erase eventId))

/-- The status under which an event is found first, and the event. -/
def findEvent (m : EventManager φ) (eventId : String) : Option (EventStatus × φ) :=
  [EventStatus.ongoing, .done, .notFound].findSome? fun s =>
    ((m.events s).get? eventId).map fun future => (s, future)

/-- `update_event_status`. -/
def updateEventStatus (m : EventManager φ) (eventId : String) (status : EventStatus) :
    Except PyError (EventManager φ) :=
  match m.findEvent eventId with
  | none => .error (.keyError s!"Event {eventId} of type EventType.LOADING not found.")
  | some (s, future) =>
    let m := m.setEvents s ((m.events s).erase eventId)
    .ok (m.setEvents status ((m.events status).set eventId future))

/-- `get_event_status`. -/
def getEventStatus (m : EventManager φ) (eventId : String) : EventStatus :=
  match m.findEvent eventId with
  | none => .notFound
  | some (s, _) => s

/-- An event that was added is found as done behind the update of its status. -/
theorem updateEventStatus_addEvent (m : EventManager φ) (eventId : String) (future : φ) :
    ∃ m', (m.addEvent eventId future).updateEventStatus eventId .done = .ok m' ∧
      m'.done.get? eventId = some future ∧ m'.getEventStatus eventId = .done := by
  have hfind : (m.addEvent eventId future).findEvent eventId = some (.ongoing, future) := by
    unfold findEvent addEvent
    rw [List.findSome?_cons, events_setEvents, if_pos rfl, Dict.get?_set, if_pos rfl]
    rfl
  unfold updateEventStatus
  rw [hfind]
  refine ⟨_, rfl, ?_, ?_⟩
  · show (Dict.set _ eventId future).get? eventId = some future
    rw [Dict.get?_set, if_pos rfl]
  · -- it is no longer among the ongoing ones, which are searched first
    unfold getEventStatus findEvent
    simp

end EventManager

end LMCache
