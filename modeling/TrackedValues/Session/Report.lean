import TrackedValues.Session.Basic
import TrackedValues.Value.Order
import TrackedValues.Value.Rendering

/-!
What can be asked about a value: its shape through every accessor, its written forms, how it
compares with another value, and the state of a text buffer or a list.
-/
namespace TrackedValues

structure Inspection where
  value : Value
  integer : Except Error Int64
  real : Except Error Binary64
  boolean : Except Error Bool
  text : Except Error TextBuffer
  list : Except Error ValueList

def Value.inspect (v : Value) (m : Machine) : Inspection × Machine :=
  let integer := v.asInteger m
  let real := v.asReal integer.2
  let boolean := v.asBoolean real.2
  let text := v.asText boolean.2
  let list := v.asList text.2
  (⟨v, integer.1, real.1, boolean.1, text.1, list.1⟩, list.2)

structure Forms where
  display : List Char
  debug : List Char
  buffer : Option (List Char × List Char)
  list : Option (List Char × List Char)
  deriving DecidableEq, Repr

def Value.forms (v : Value) : Forms where
  display := v.display
  debug := v.debug
  buffer :=
    match v with
    | text b => some (b.display, b.debug)
    | _ => none
  list :=
    match v with
    | list l => some (ValueList.debug l, ValueList.debugSpread l)
    | _ => none

/-- How two buffers compare; text comparisons are absent when the second is not UTF-8. -/
structure BufferComparison where
  order : Ordering
  partialOrder : Option Ordering
  equal : Bool
  equalBytes : Bool
  equalText : Option Bool
  equalHash : Bool
  deriving DecidableEq, Repr

def TextBuffer.compareWith (b c : TextBuffer) : BufferComparison where
  order := b.order c
  partialOrder := b.order? c
  equal := b.equals c
  equalBytes := b.equalsBytes c.content
  equalText :=
    match c.text with
    | .ok text => some (b.equalsText text)
    | .error _ => none
  equalHash := decide (b.hashInput = c.hashInput)

structure Comparison where
  equal : Bool
  order : Option Ordering
  less : Bool
  atMost : Bool
  greater : Bool
  atLeast : Bool
  buffers : Option BufferComparison
  lists : Option Bool
  deriving DecidableEq, Repr

def Value.compareWith (v w : Value) : Comparison where
  equal := v.equals w
  order := v.order? w
  less := v.isLess w
  atMost := v.isAtMost w
  greater := v.isGreater w
  atLeast := v.isAtLeast w
  buffers :=
    match v, w with
    | text b, text c => some (b.compareWith c)
    | _, _ => none
  lists :=
    match v, w with
    | list l, list k => some (ValueList.equals l k)
    | _, _ => none

structure ListState where
  len : Nat
  isEmpty : Bool
  front : Option Value
  back : Option Value
  forwards : List Value
  backwards : List Value
  stats : Stats

def ValueList.state (l : ValueList) (m : Machine) : Except Error ListState := do
  let front ← l.front
  let back ← l.back
  let forwards ← l.cursor.toList
  let backwards ← l.cursor.toListBack
  return ⟨l.len, l.isEmpty, front, back, forwards, backwards, m.heap.statsOf l.allocator⟩

inductive Glance
  | front | back | size | rest | restReversed
  deriving DecidableEq, Repr

inductive Pull
  | front | back | size
  deriving DecidableEq, Repr

inductive Sighting
  | found (v : Option Value)
  | size (n : Nat)
  | values (vs : List Value)

def Sighting.release : Sighting → Machine → Machine
  | .found (some v), m => v.release m
  | _, m => m

namespace Cursor

def glance (c : Cursor Value) : Glance → Except Error (Sighting × Cursor Value)
  | .front => do
    let (v, c) ← c.next
    return (.found v, c)
  | .back => do
    let (v, c) ← c.nextBack
    return (.found v, c)
  | .size => return (.size c.remaining, c)
  | .rest => return (.values (← c.toList), c)
  | .restReversed => return (.values (← c.toListBack), c)

def glances (c : Cursor Value) : List Glance → Except Error (List Sighting)
  | [] => return []
  | g :: more => do
    let (sighting, c) ← c.glance g
    return sighting :: (← c.glances more)

end Cursor

namespace Drain

def pull (d : Drain Value) : Pull → Except Error Sighting × Drain Value
  | .front =>
    let taken := d.next
    (taken.1.map .found, taken.2)
  | .back =>
    let taken := d.nextBack
    (taken.1.map .found, taken.2)
  | .size => (.ok (.size d.remaining), d)

def pulls (d : Drain Value) : List Pull → Machine → Except Error (List Sighting) × Machine
  | [], m => (.ok [], ValueList.release d.list m)
  | p :: more, m =>
    let seen := d.pull p
    match seen.1 with
    | .error e => (.error e, ValueList.release seen.2.list m)
    | .ok sighting =>
      match seen.2.pulls more (sighting.release m) with
      | (.ok rest, m) => (.ok (sighting :: rest), m)
      | (.error e, m) => (.error e, m)

end Drain
end TrackedValues
