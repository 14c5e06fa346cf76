import TrackedValues.Proofs.Value.Editing

/-!
Worlds: a machine together with everything that is owned on it, values and drains that are not yet
used up. The operations of the library are steps of worlds. Values go from one owner to another:
an element that is pushed leaves the world's own values, an element that is popped joins them.
-/
namespace TrackedValues

structure World where
  machine : Machine
  values : List Value := []
  drains : List (Drain Value) := []

inductive Maker
  | integer (n : Int64)
  | real (x : Binary64)
  | boolean (b : Bool)
  | emptyText (a : Allocator)
  | roomyText (a : Allocator) (capacity : Nat)
  | text (a : Allocator) (bytes : List UInt8)
  | emptyList (a : Allocator)
  | roomyList (a : Allocator) (capacity : Nat)

def Maker.make (m : Machine) : Maker → Except Error Value × Machine
  | integer n => (.ok (.integer n), m)
  | real x => (.ok (.real x), m)
  | boolean b => (.ok (.boolean b), m)
  | emptyText a => (.ok (.text (.empty a)), m)
  | roomyText a capacity => Value.ofText (TextBuffer.withCapacity a capacity m)
  | text a bytes => Value.ofText (TextBuffer.ofBytes a bytes m)
  | emptyList a => (.ok (.emptyList a), m)
  | roomyList a capacity => Value.ofList (SlotList.withCapacity a capacity m)

/-- Changes of a value in place, into which nothing else goes and out of which nothing comes. -/
inductive Change
  | append (bytes : List UInt8)
  | write (pieces : List (List UInt8))
  | reserve (additional : Nat)
  | truncate (len : Nat)
  | clearText
  | withPolicy (policy : GrowthPolicy)
  | clearList

def Change.edit : Change → Value.Edit Unit := fun change v m =>
  let onText (work : TextBuffer → Machine → Outcome AllocationError TextBuffer Unit) :=
    let o := v.onText m work
    ((), o.target, o.machine)
  match change with
  | append bytes => onText fun b m => b.append bytes m
  | write pieces => onText fun b m => b.appendAll pieces m
  | reserve additional => onText fun b m => b.reserve additional m
  | truncate len => onText fun b m => ⟨.ok (), b.truncate len, m⟩
  | clearText => onText fun b m => ⟨.ok (), b.clear, m⟩
  | withPolicy policy => onText fun b m => ⟨.ok (), b.withPolicy policy, m⟩
  | clearList =>
    let o := v.onList m ValueList.clear
    ((), o.target, o.machine)

/-- Ways to hand a value over to another: to one end of a list, or in its place. -/
inductive Giving
  | back
  | front
  | inPlace
  deriving DecidableEq, Repr

def Giving.edit (element : Value) : Giving → Value.Edit (Except Error Unit) := fun giving v m =>
  let o := match giving with
    | back => v.pushBack element m
    | front => v.pushFront element m
    | inPlace => v.overwrite element m
  (o.result, o.target, o.machine)

inductive Taking
  | front
  | back
  | nth (position : Nat)
  deriving DecidableEq, Repr

def Taking.edit : Taking → Value.Edit (Except Error (Option Value)) := fun taking v m =>
  match taking with
  | front =>
    let o := v.popFront m
    (o.result, o.target, o.machine)
  | back =>
    let o := v.popBack m
    (o.result, o.target, o.machine)
  | nth position =>
    let o := v.remove position m
    (o.result.map some, o.target, o.machine)

/-- Operations name owned values and drains by their position, and elements by a path. -/
inductive Operation
  | make (maker : Maker)
  | change (n : Nat) (path : List Nat) (change : Change)
  | give (giving : Giving) (element n : Nat) (path : List Nat)
  | take (taking : Taking) (n : Nat) (path : List Nat)
  | clone (n : Nat) (path : List Nat)
  | drop (n : Nat)
  | consume (n : Nat)
  | pull (fromBack : Bool) (n : Nat)
  | dropDrain (n : Nat)
  | setLimit (t : TrackerId) (limit : Option Nat)

namespace World
variable {β : Type}

def start (base : Base) : World := { machine := .start base }

def draining (w : World) : List Value := w.drains.map fun d => .list d.list

/-- All that is owned: the values, and the lists that drains have not used up. -/
def owned (w : World) : List Value := w.values ++ w.draining

def adopt (w : World) (answer : Except Error Value × Machine) : World :=
  match answer.1 with
  | .ok v => { w with machine := answer.2, values := v :: w.values }
  | .error _ => { w with machine := answer.2 }

def editing (w : World) (n : Nat) (path : List Nat) (edit : Value.Edit β) :
    Option (Except Error (Option β)) × World :=
  match w.values[n]? with
  | none => (none, w)
  | some v =>
    let o := v.editAt edit path w.machine
    (some o.result, { w with machine := o.machine, values := w.values.set n o.target })

def give (w : World) (giving : Giving) (element n : Nat) (path : List Nat) : World :=
  match w.values[element]? with
  | none => w
  | some v =>
    let others := { w with values := w.values.eraseIdx element }
    match others.editing n path (giving.edit v) with
    | (some (.ok (some _)), after) => after
    | (_, after) => { after with values := v :: after.values }

def take (w : World) (taking : Taking) (n : Nat) (path : List Nat) : World :=
  match w.editing n path taking.edit with
  | (some (.ok (some answer)), after) =>
    { after with values := ValueList.handedOut answer ++ after.values }
  | (_, after) => after

def clone (w : World) (n : Nat) (path : List Nat) : World :=
  match w.values[n]? with
  | none => w
  | some v =>
    let found := v.find path w.machine
    match found.1 with
    | .ok (some x) => { w with machine := found.2 }.adopt (x.duplicate found.2)
    | _ => { w with machine := found.2 }

def drop (w : World) (n : Nat) : World :=
  match w.values[n]? with
  | none => w
  | some v => { w with machine := v.release w.machine, values := w.values.eraseIdx n }

def consume (w : World) (n : Nat) : World :=
  match w.values[n]? with
  | some (.list l) => { w with values := w.values.eraseIdx n, drains := ⟨l⟩ :: w.drains }
  | _ => w

def pull (w : World) (fromBack : Bool) (n : Nat) : World :=
  match w.drains[n]? with
  | none => w
  | some d =>
    let taken := if fromBack then d.nextBack else d.next
    { w with
      values := ValueList.handedOut taken.1 ++ w.values, drains := w.drains.set n taken.2 }

def dropDrain (w : World) (n : Nat) : World :=
  match w.drains[n]? with
  | none => w
  | some d =>
    { w with machine := ValueList.release d.list w.machine, drains := w.drains.eraseIdx n }

def perform (w : World) : Operation → World
  | .make maker => w.adopt (maker.make w.machine)
  | .change n path change => (w.editing n path change.edit).2
  | .give giving element n path => w.give giving element n path
  | .take taking n path => w.take taking n path
  | .clone n path => w.clone n path
  | .drop n => w.drop n
  | .consume n => w.consume n
  | .pull fromBack n => w.pull fromBack n
  | .dropDrain n => w.dropDrain n
  | .setLimit t limit =>
    { w with machine := { w.machine with heap := w.machine.heap.setLimit t limit } }

def run (base : Base) (operations : List Operation) : World :=
  operations.foldl perform (start base)

def stats (w : World) (t : TrackerId) : Stats := (w.machine.heap.tracker t).stats

end World
end TrackedValues
