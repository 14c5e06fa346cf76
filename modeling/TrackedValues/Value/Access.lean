import TrackedValues.Value.Basic

/-!
Typed access to values. A value of another shape is a mismatch, which is reported as an event and
as the error; the payload is never reinterpreted.
-/
namespace TrackedValues

abbrev Shape.Payload : Shape → Type
  | integer => Int64
  | real => Binary64
  | string => TextBuffer
  | boolean => Bool
  | list => ValueList

namespace Value
variable {α ε : Type}

def mismatch (v : Value) (expected : Shape) (m : Machine) : Except Error α × Machine :=
  (.error (.typeMismatch expected v.shape), m.emit (.mismatch expected v.shape))

def payload? : (s : Shape) → Value → Option s.Payload
  | .integer, integer n => some n
  | .real, real x => some x
  | .string, text b => some b
  | .boolean, boolean b => some b
  | .list, list l => some l
  | _, _ => none

def access (expected : Shape) (v : Value) (m : Machine) : Except Error expected.Payload × Machine :=
  match v.payload? expected with
  | some payload => (.ok payload, m)
  | none => v.mismatch expected m

def asInteger : Value → Machine → Except Error Int64 × Machine := access .integer

def asReal : Value → Machine → Except Error Binary64 × Machine := access .real

def asText : Value → Machine → Except Error TextBuffer × Machine := access .string

def asBoolean : Value → Machine → Except Error Bool × Machine := access .boolean

def asList : Value → Machine → Except Error ValueList × Machine := access .list

@[simp] theorem asList_list (l : ValueList) (m : Machine) : (list l).asList m = (.ok l, m) := rfl

def refused (v : Value) (expected : Shape) (m : Machine) : Outcome Error Value α :=
  let answer := v.mismatch expected m
  ⟨answer.1, v, answer.2⟩

/-- Works on the buffer of a text value, whose own failures are part of the answer. -/
def onText (v : Value) (m : Machine) (work : TextBuffer → Machine → Outcome ε TextBuffer α) :
    Outcome Error Value (Except ε α) :=
  match v with
  | text b =>
    let o := work b m
    ⟨.ok o.result, .text o.target, o.machine⟩
  | v => v.refused .string m

def onList (v : Value) (m : Machine) (work : ValueList → Machine → Outcome Error ValueList α) :
    Outcome Error Value α :=
  match v with
  | list l => (work l m).within list
  | v => v.refused .list m

end Value
end TrackedValues
