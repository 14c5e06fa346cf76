import TrackedValues.Size

/-!
The five shapes that a value can have, the failures of values, buffers and lists as causes, and what
is reported while they work: granted growth and removals are traces, refusals and mismatches are
debugging events. The wording of a failure is in `message`, its structured form in `debug`.
-/
namespace TrackedValues

inductive Shape
  | integer | real | string | boolean | list
  deriving DecidableEq, Repr

namespace Shape

def all : List Shape := [integer, real, string, boolean, list]

def ordinal : Shape → Nat
  | integer => 0
  | real => 1
  | string => 2
  | boolean => 3
  | list => 4

def ofOrdinal? (n : Nat) : Option Shape := all[n]?

def name : Shape → String
  | integer => "Integer"
  | real => "Real"
  | string => "String"
  | boolean => "Boolean"
  | list => "List"

def isScalar : Shape → Bool
  | integer | real | boolean => true
  | string | list => false

def order (a b : Shape) : Ordering := compare a.ordinal b.ordinal

def hashInput (s : Shape) : List UInt8 := [UInt8.ofNat s.ordinal]

theorem ofOrdinal?_ordinal (s : Shape) : ofOrdinal? s.ordinal = some s := by
  cases s <;> rfl

end Shape

/-- Storage could not be obtained; `requested` is the size in bytes that was asked for. -/
structure AllocationError where
  requested : Nat
  deriving DecidableEq, Repr

namespace AllocationError

def message (e : AllocationError) : String := s!"failed to allocate {e.requested} bytes"

def debug (e : AllocationError) : String :=
  "AllocationError \x7b requested: " ++ toString e.requested ++ " \x7d"

def layout (e : AllocationError) : Layout := .ofBytes e.requested

end AllocationError

/--
Why an operation on a value failed. `brokenLink` names the slot at which a list's table was found
inconsistent; no list that was built by the operations of this library has such a slot.
-/
inductive Error
  | allocation (cause : AllocationError)
  | typeMismatch (expected found : Shape)
  | indexOutOfRange (index len : Nat)
  | unknownOrdinal (ordinal : Nat)
  | brokenLink (slot : Nat)
  deriving DecidableEq, Repr

namespace Error

def message : Error → String
  | allocation cause => cause.message
  | typeMismatch expected found =>
    "type mismatch: expected " ++ expected.name ++ ", found " ++ found.name
  | indexOutOfRange index len => s!"index {index} out of range for list of length {len}"
  | unknownOrdinal ordinal => s!"unknown type id {ordinal}"
  | brokenLink slot => s!"broken link at slot {slot}"

def debug : Error → String
  | allocation cause => "Allocation(" ++ cause.debug ++ ")"
  | typeMismatch expected found =>
    "TypeMismatch \x7b expected: " ++ expected.name ++ ", found: " ++ found.name ++ " \x7d"
  | indexOutOfRange index len =>
    "IndexOutOfRange \x7b index: " ++ toString index ++ ", len: " ++ toString len ++ " \x7d"
  | unknownOrdinal ordinal => s!"UnknownTypeId({ordinal})"
  | brokenLink slot => s!"BrokenLink({slot})"

end Error

def Shape.ofOrdinal (n : Nat) : Except Error Shape :=
  match ofOrdinal? n with
  | some s => .ok s
  | none => .error (.unknownOrdinal n)

inductive Event
  | bufferGrown (oldCapacity newCapacity len : Nat)
  | bufferRefused (requested : Nat)
  | tableRefused (slots bytes : Nat)
  | mismatch (expected found : Shape)
  | removed (position len : Nat)
  deriving DecidableEq, Repr

def Event.line : Event → String
  | bufferGrown oldCapacity newCapacity len =>
    s!"TRACE string buffer grown old_capacity={oldCapacity} new_capacity={newCapacity} len={len}"
  | bufferRefused requested => s!"DEBUG string buffer allocation failed requested={requested}"
  | tableRefused slots bytes => s!"DEBUG list slot allocation failed slots={slots} bytes={bytes}"
  | mismatch expected found =>
    "DEBUG value type mismatch expected=" ++ expected.name ++ " found=" ++ found.name
  | removed position len => s!"TRACE removed list element position={position} len={len}"

end TrackedValues
