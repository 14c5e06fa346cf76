import TrackedValues.Session.Basic

/-!
Literals describe values to build. They are built left to right and depth first; when a part
fails, everything built before it is released.
-/
namespace TrackedValues

/-- How a text literal gets its storage: exactly what it needs, or a capacity and then growth. -/
inductive TextPlan
  | exact
  | grown (capacity : Nat) (policy : GrowthPolicy)
  deriving DecidableEq, Repr

inductive Literal
  | integer (n : Int64)
  | real (x : Binary64)
  | boolean (b : Bool)
  | text (bytes : List UInt8) (plan : TextPlan) (allocator : Nat)
  | list (items : List Literal) (capacity allocator : Nat)
  | take (register : String)
  | copy (register : String)

def TextPlan.build (plan : TextPlan) (a : Allocator) (bytes : List UInt8) (m : Machine) :
    Except AllocationError TextBuffer × Machine :=
  match plan with
  | exact => TextBuffer.ofBytes a bytes m
  | grown capacity policy =>
    TextBuffer.built (((TextBuffer.empty a).growTo capacity m).andThen fun _ b m =>
      (b.withPolicy policy).append bytes m)

namespace Session

def copy (s : Session) (name : String) : Except Failure Value × Session :=
  match s.register? name with
  | none => (.error (.unboundRegister name), s)
  | some v =>
    match v.duplicate s.machine with
    | (.ok c, m) => (.ok c, s.on m)
    | (.error e, m) => (.error (.value e), s.on m)

mutual

def build : Literal → Session → Except Failure Value × Session
  | .integer n, s => (.ok (.integer n), s)
  | .real x, s => (.ok (.real x), s)
  | .boolean b, s => (.ok (.boolean b), s)
  | .text bytes plan n, s =>
    match plan.build (s.allocator n) bytes s.machine with
    | (.ok b, m) => (.ok (.text b), s.on m)
    | (.error e, m) => (.error (.storage e), s.on m)
  | .list items capacity n, s =>
    match SlotList.withCapacity (s.allocator n) capacity s.machine with
    | (.error e, m) => (.error (.value e), s.on m)
    | (.ok l, m) => buildItems l items (s.on m)
  | .take name, s => s.take name
  | .copy name, s => s.copy name

def buildItems (l : ValueList) : List Literal → Session → Except Failure Value × Session
  | [], s => (.ok (.list l), s)
  | item :: more, s =>
    match build item s with
    | (.error f, s) => (.error f, s.on (ValueList.release l s.machine))
    | (.ok v, s) =>
      let o := ValueList.pushBack l v s.machine
      match o.result with
      | .ok _ => buildItems o.target more (s.on o.machine)
      | .error e => (.error (.value e), s.on (ValueList.release o.target o.machine))

end

end Session
end TrackedValues
