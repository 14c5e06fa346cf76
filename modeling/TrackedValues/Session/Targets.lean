import TrackedValues.Session.Command
import TrackedValues.Value.Editing

/-!
Commands on the value of a target. Some look at it and leave it as it is; what they report are the
mismatches on the way and in the view. Others change it in place. A literal is built before the
target is looked up, and released if there is no target to use it on.
-/
namespace TrackedValues.Session
variable {α β : Type}

def find (s : Session) (t : Target) : Except Failure (Option Value) × Session :=
  match s.register? t.register with
  | none => (.error (.unboundRegister t.register), s)
  | some v =>
    let answer := v.find t.path s.machine
    (answer.1.mapError .value, s.on answer.2)

def look (s : Session) (t : Target) (view : Value → Machine → Reply × Machine) : Reply × Session :=
  match s.find t with
  | (.ok (some v), s) =>
    let seen := view v s.machine
    (seen.1, s.on seen.2)
  | (missing, s) => (.ofMissing missing, s)

def viewing (shown : α → Reply) (view : Value → Machine → Except Error α × Machine) :
    Value → Machine → Reply × Machine := fun v m =>
  let seen := view v m
  (.ofAnswer shown seen.1, seen.2)

def viewingList (shown : α → Reply) (view : ValueList → Machine → Except Error α) :
    Value → Machine → Reply × Machine :=
  viewing shown fun v m =>
    match v.asList m with
    | (.ok l, m) => (view l m, m)
    | (.error e, m) => (.error e, m)

def clone (s : Session) (t : Target) (destination : String) : Reply × Session :=
  match s.find t with
  | (.ok (some v), s) =>
    match v.duplicate s.machine with
    | (.ok copy, m) => (.done, (s.on m).rebind destination copy)
    | (.error e, m) => (.failed (.value e), s.on m)
  | (missing, s) => (.ofMissing missing, s)

def compare (s : Session) (t other : Target) : Reply × Session :=
  match s.find t with
  | (.ok (some v), s) =>
    match s.find other with
    | (.ok (some w), s) => (.comparison (v.compareWith w), s)
    | (missing, s) => (.ofMissing missing, s)
  | (missing, s) => (.ofMissing missing, s)

/-- Edits the value of a target, if its path leads to one; it is out of its register meanwhile. -/
def editTarget (s : Session) (t : Target) (edit : Value.Edit β) :
    Except Failure (Option β) × Session :=
  match s.take t.register with
  | (.error f, s) => (.error f, s)
  | (.ok v, s) =>
    let o := v.editAt edit t.path s.machine
    (o.result.mapError .value, (s.on o.machine).bind t.register o.target)

def edit (s : Session) (t : Target) (work : Value.Edit Reply) : Reply × Session :=
  match s.editTarget t work with
  | (.ok (some reply), s) => (reply, s)
  | (missing, s) => (.ofMissing missing, s)

/-- Edits a target with a value built for it, which is released if there is no target. -/
def editWith (s : Session) (t : Target) (v : Literal) (work : Value → Value.Edit Reply) :
    Reply × Session :=
  match s.build v with
  | (.error f, s) => (.failed f, s)
  | (.ok built, s) =>
    match s.editTarget t (work built) with
    | (.ok (some reply), s) => (reply, s)
    | (missing, s) => (.ofMissing missing, s.on (built.release s.machine))

def editing (shown : Except Error α → Reply) (work : Value → Machine → Outcome Error Value α) :
    Value.Edit Reply := fun v m =>
  let o := work v m
  (shown o.result, o.target, o.machine)

def editingText (work : TextBuffer → Machine → Outcome AllocationError TextBuffer Unit) :
    Value.Edit Reply :=
  editing .ofWork fun v m => v.onText m work

def changingText (change : TextBuffer → TextBuffer) : Value.Edit Reply :=
  editingText fun b m => ⟨.ok (), change b, m⟩

def writing (pieces : List (List UInt8)) : Value.Edit Reply :=
  editing .ofWriting fun v m => v.onText m fun b m => b.appendAll pieces m

def pushing (byte : UInt8) (times : Nat) : Value.Edit Reply :=
  editing .ofPushing fun v m => v.onText m fun b m => b.pushTimes byte times 0 m

def filling (atFront : Bool) (times : Nat) (start : Int64) : Value.Edit Reply := fun v m =>
  let done := v.fill atFront times start 0 m
  (.pushed done.1.1 (done.1.2.map .value), done.2.1, done.2.2)

def popping (pop : Value → Machine → Outcome Error Value (Option Value)) : Value.Edit Reply :=
  fun v m =>
    let o := pop v m
    match o.result with
    | .error e => (.failed (.value e), o.target, o.machine)
    | .ok none => (.found none, o.target, o.machine)
    | .ok (some element) => (.found (some element), o.target, element.release o.machine)

def remove (s : Session) (t : Target) (position : Nat) (keep : Option String) : Reply × Session :=
  match s.editTarget t fun v m =>
    let o := v.remove position m
    (o.result, o.target, o.machine) with
  | (.ok (some (.ok element)), s) =>
    match keep with
    | some name => (.found (some element), s.rebind name element)
    | none => (.found (some element), s.on (element.release s.machine))
  | (.ok (some (.error e)), s) => (.failed (.value e), s)
  | (missing, s) => (.ofMissing missing, s)

end TrackedValues.Session
