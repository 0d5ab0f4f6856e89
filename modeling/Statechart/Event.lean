/-
# Events

An event has a type, a text, and may carry data. Where only a type is given the event carries
nothing else.

* `Event.ofValue`: the event a value stands for;
* `ofValue_ofType`: an event of a type alone.
-/
import Statechart.Fault

namespace Statechart

/-- An event: its type, and the mapping expressions see. -/
structure Event where
  type : String
  value : Value
deriving Inhabited, Repr

namespace Event

/-- An event that carries nothing. -/
def ofType (type : String) : Event := ⟨type, .record [("type", .text type)]⟩

/-- An event that carries data. -/
def withData (type : String) (data : Value) : Event :=
  ⟨type, .record [("type", .text type), ("data", data)]⟩

/-- The event a value stands for: a type, or a mapping with a type that is not empty. -/
def ofValue (v : Value) : Except Fault Event :=
  match v with
  | .text type => .ok (ofType type)
  | .dict es =>
    match Entries.lookup "type" es with
    | some (.text type) => if type.isEmpty then .error (.notAnEvent v) else .ok ⟨type, v⟩
    | _ => .error (.notAnEvent v)
  | _ => .error (.notAnEvent v)

theorem ofValue_ofType (type : String) : ofValue (.text type) = .ok (ofType type) := rfl

end Event

end Statechart
