import TrackedValues.Value.Ownership

/-!
Changing values in place, directly and through a path. A path is a list of positions; every hop
goes into the element at a position of a list. A hop on another shape is a mismatch, and a
position behind the end finds nothing.
-/
namespace TrackedValues

def TextBuffer.pushTimes (b : TextBuffer) (byte : UInt8) :
    Nat → Nat → Machine → Outcome AllocationError TextBuffer (Nat × Option AllocationError)
  | 0, count, m => ⟨.ok (count, none), b, m⟩
  | times + 1, count, m =>
    let o := b.push byte m
    match o.result with
    | .ok _ => o.target.pushTimes byte times (count + 1) o.machine
    | .error e => ⟨.ok (count, some e), o.target, o.machine⟩

namespace Value
variable {β : Type}

/-- A value that is no list releases the element. -/
def pushWith (push : ValueList → Value → Machine → Outcome Error ValueList Unit)
    (v element : Value) (m : Machine) : Outcome Error Value Unit :=
  match v with
  | list l => (push l element m).within list
  | v =>
    let o : Outcome Error Value Unit := v.refused .list m
    { o with machine := element.release o.machine }

def pushBack (v element : Value) (m : Machine) : Outcome Error Value Unit :=
  pushWith ValueList.pushBack v element m

def pushFront (v element : Value) (m : Machine) : Outcome Error Value Unit :=
  pushWith ValueList.pushFront v element m

def remove (v : Value) (position : Nat) (m : Machine) : Outcome Error Value Value :=
  v.onList m fun l m => l.remove position m

def popWith (pop : ValueList → Except Error (Option Value) × ValueList) (v : Value) (m : Machine) :
    Outcome Error Value (Option Value) :=
  v.onList m fun l m =>
    let taken := pop l
    ⟨taken.1, taken.2, m⟩

def popFront (v : Value) (m : Machine) : Outcome Error Value (Option Value) :=
  popWith SlotList.popFront v m

def popBack (v : Value) (m : Machine) : Outcome Error Value (Option Value) :=
  popWith SlotList.popBack v m

def overwrite (v replacement : Value) (m : Machine) : Outcome Error Value Unit :=
  ⟨.ok (), replacement, v.release m⟩

def find (v : Value) (path : List Nat) (m : Machine) : Except Error (Option Value) × Machine :=
  match path with
  | [] => (.ok (some v), m)
  | position :: path =>
    match v.asList m with
    | (.error e, m) => (.error e, m)
    | (.ok l, m) =>
      match l.get position with
      | .error e => (.error e, m)
      | .ok none => (.ok none, m)
      | .ok (some element) => find element path m

abbrev Edit (β : Type) := Value → Machine → β × Value × Machine

/--
Edits the value that a path leads to; the answer is absent when it leads nowhere. The value is
taken out of its list before it is edited, so that it has one owner.
-/
def editAt (edit : Edit β) : List Nat → Value → Machine → Outcome Error Value (Option β)
  | [], v, m =>
    let done := edit v m
    ⟨.ok (some done.1), done.2.1, done.2.2⟩
  | position :: path, list l, m =>
    match l.slotAt position with
    | .error e => ⟨.error e, list l, m⟩
    | .ok none => ⟨.ok none, list l, m⟩
    | .ok (some i) =>
      match l.valueAt i with
      | .error e => ⟨.error e, list l, m⟩
      | .ok element =>
        let rest := l.setValue i (boolean false)
        (editAt edit path element m).within fun edited => list (rest.setValue i edited)
  | _ :: _, v, m => v.refused .list m

def fill (atFront : Bool) : Nat → Int64 → Nat → Value → Machine →
    (Nat × Option Error) × Value × Machine
  | 0, _, count, v, m => ((count, none), v, m)
  | times + 1, n, count, v, m =>
    let o := if atFront then v.pushFront (.integer n) m else v.pushBack (.integer n) m
    match o.result with
    | .ok _ => fill atFront times (n + 1) (count + 1) o.target o.machine
    | .error e => ((count, some e), o.target, o.machine)

/-- Wraps a value in a number of lists of one element each; a failure releases what there is. -/
def nest (a : Allocator) : Nat → Value → Machine → Except Error Value × Machine
  | 0, v, m => (.ok v, m)
  | levels + 1, v, m =>
    let o := (emptyList a).pushBack v m
    match o.result with
    | .ok _ => nest a levels o.target o.machine
    | .error e => (.error e, o.target.release o.machine)

end Value
end TrackedValues
