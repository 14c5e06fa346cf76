import TrackedValues.SlotList.Iteration
import TrackedValues.SlotList.Table
import TrackedValues.Value.Access

/-!
Ownership of storage. A list owns its elements: releasing it releases them first, and an element
that a list cannot take is released at once. A copy gets storage of its own, list tables before
their elements, and a copy that cannot be finished is released.
-/
namespace TrackedValues

/-- Releases the elements of a list, in the order of its table, each by its own release. -/
def SlotList.releaseStored (l : SlotList (Machine → Machine)) (m : Machine) : Machine :=
  l.stored.foldl (fun m release => release m) m

namespace Value

def releasing : Cases (Machine → Machine) where
  integer _ m := m
  real _ m := m
  text b m := b.release m
  boolean _ m := m
  list l m := l.releaseTable (l.releaseStored m)

def release (v : Value) : Machine → Machine := v.fold releasing

end Value

namespace ValueList

def releaseElements (l : ValueList) (m : Machine) : Machine :=
  (l.map Value.release).releaseStored m

def release (l : ValueList) (m : Machine) : Machine := l.releaseTable (releaseElements l m)

def keepOrRelease (element : Value) (o : Outcome Error ValueList Unit) :
    Outcome Error ValueList Unit :=
  match o.result with
  | .ok _ => o
  | .error _ => { o with machine := element.release o.machine }

def pushBack (l : ValueList) (element : Value) (m : Machine) : Outcome Error ValueList Unit :=
  keepOrRelease element (SlotList.pushBack l element m)

def pushFront (l : ValueList) (element : Value) (m : Machine) : Outcome Error ValueList Unit :=
  keepOrRelease element (SlotList.pushFront l element m)

def clear (l : ValueList) (m : Machine) : Outcome Error ValueList Unit :=
  ⟨.ok (), SlotList.clear l, releaseElements l m⟩

end ValueList

abbrev Copying := Machine → Except Error Value × Machine

/-- Pushes the copies one by one; if one fails, the list that holds the earlier ones is released. -/
def ValueList.pushCopies (copy : ValueList) : List Copying → Machine → Except Error ValueList × Machine
  | [], m => (.ok copy, m)
  | copying :: more, m =>
    match copying m with
    | (.error e, m) => (.error e, release copy m)
    | (.ok element, m) =>
      let o := pushBack copy element m
      match o.result with
      | .ok _ => pushCopies o.target more o.machine
      | .error e => (.error e, release o.target o.machine)

def SlotList.copyWith (l : SlotList Copying) (m : Machine) : Except Error ValueList × Machine :=
  match SlotList.withCapacity l.allocator l.len m with
  | (.error e, m) => (.error e, m)
  | (.ok copy, m) => ValueList.pushCopies copy l.elements m

namespace Value

def ofText (answer : Except AllocationError TextBuffer × Machine) : Except Error Value × Machine :=
  match answer with
  | (.ok b, m) => (.ok (.text b), m)
  | (.error e, m) => (.error (.allocation e), m)

def ofList (answer : Except Error ValueList × Machine) : Except Error Value × Machine :=
  match answer with
  | (.ok l, m) => (.ok (.list l), m)
  | (.error e, m) => (.error e, m)

def copying : Cases Copying where
  integer n m := (.ok (.integer n), m)
  real x m := (.ok (.real x), m)
  text b m := ofText (b.duplicate m)
  boolean b m := (.ok (.boolean b), m)
  list l m := ofList (l.copyWith m)

/-- A deep copy: text with capacity for its content, lists element by element. -/
def duplicate (v : Value) : Machine → Except Error Value × Machine := v.fold copying

end Value

def ValueList.duplicate (l : ValueList) : Machine → Except Error ValueList × Machine :=
  (l.map Value.duplicate).copyWith

end TrackedValues
