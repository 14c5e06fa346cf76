import TrackedValues.Session.Targets

/-!
Performing commands, and scripts of them. A step that fails binds no register that it does not
work on. Its report shows the reply, the register that the step watches, the counters of the
trackers and the events of the step.
-/
namespace TrackedValues

/-- A command, and the register to look at after it; the command need not work on that register. -/
structure Step where
  command : Command
  watched : Option String

structure StepReport where
  reply : Reply
  /-- The watched register after the step, if there is one, and its value, if bound. -/
  register : Option (Option Value)
  stats : List Stats
  events : List Event

namespace Session

def set (s : Session) (destination : String) (v : Literal) : Reply × Session :=
  match s.build v with
  | (.ok built, s) => (.done, s.rebind destination built)
  | (.error f, s) => (.failed f, s)

def destroy (s : Session) (register : String) : Reply × Session :=
  if (s.register? register).isSome then (.done, s.drop register)
  else (.failed (.unboundRegister register), s)

def nest (s : Session) (register : String) (levels n : Nat) : Reply × Session :=
  match s.take register with
  | (.error f, s) => (.failed f, s)
  | (.ok v, s) =>
    match v.nest (s.allocator n) levels s.machine with
    | (.ok nested, m) => (.done, (s.on m).bind register nested)
    | (.error e, m) => (.failed (.value e), s.on m)

def consume (s : Session) (register : String) (script : List Pull) : Reply × Session :=
  match s.take register with
  | (.error f, s) => (.failed f, s)
  | (.ok v, s) =>
    match v.asList s.machine with
    | (.error e, m) => (.failed (.value e), s.on (v.release m))
    | (.ok l, m) =>
      let seen := (Drain.mk l).pulls script m
      (.ofAnswer .sightings seen.1, s.on seen.2)

def setLimit (s : Session) (tracker : TrackerName) (limit : Option Nat) : Session :=
  match s.arrangement.tracker? tracker with
  | none => s
  | some t => s.on { s.machine with heap := s.machine.heap.setLimit t limit }

def setRoom (s : Session) (tracker : TrackerName) (room : Nat) : Session :=
  match s.arrangement.tracker? tracker with
  | none => s
  | some t => s.setLimit tracker (some ((s.machine.heap.tracker t).stats.liveBytes + room))

/-- Binds a fresh block; one that had the name before has no owner any more and stays live. -/
def allocate (s : Session) (name : String) (layout : Layout) (a : Allocator) : Reply × Session :=
  if ¬layout.Valid then (.failed .invalidLayout, s)
  else if ¬layout.Placeable then (.failed .blockRefused, s)
  else
    match s.machine.request a (.fresh layout.size) with
    | (some _, m) => (.block layout.size, (s.on m).bindBlock name ⟨a, layout⟩)
    | (none, m) => (.failed .blockRefused, s.on m)

/-- Smaller and zeroed blocks move to fresh storage; other blocks grow where they are. -/
def resized (m : Machine) (b : Block) (size : Nat) (zeroed : Bool) : Option Nat × Machine :=
  if size < b.layout.size ∨ zeroed = true then m.replace b.allocator b.layout.size size
  else m.request b.allocator (.grow b.layout.size size)

def resize (s : Session) (name : String) (size : Nat) (zeroed : Bool) : Reply × Session :=
  match s.block? name with
  | none => (.failed (.unboundBlock name), s)
  | some b =>
    let layout : Layout := ⟨size, b.layout.align⟩
    if ¬layout.Valid then (.failed .invalidLayout, s)
    else if ¬layout.Placeable then (.failed .blockRefused, s)
    else
      match resized s.machine b size zeroed with
      | (some _, m) => (.block size, (s.on m).bindBlock name ⟨b.allocator, layout⟩)
      | (none, m) => (.failed .blockRefused, s.on m)

def deallocate (s : Session) (name : String) : Reply × Session :=
  if (s.block? name).isSome then (.done, s.dropBlock name)
  else (.failed (.unboundBlock name), s)

def perform (s : Session) : Command → Reply × Session
  | .set destination v => s.set destination v
  | .emptyList destination n => (.done, s.rebind destination (.emptyList (s.allocator n)))
  | .assign t v => s.editWith t v fun built => editing .ofUnit fun v m => v.overwrite built m
  | .destroy register => s.destroy register
  | .clone t destination => s.clone t destination
  | .inspect t => s.look t fun v m =>
    let seen := v.inspect m
    (.inspection seen.1, seen.2)
  | .forms t => s.look t fun v m => (.forms v.forms, m)
  | .compare t other => s.compare t other
  | .asInteger t => s.look t (viewing .integer Value.asInteger)
  | .asReal t => s.look t (viewing .real Value.asReal)
  | .asBoolean t => s.look t (viewing .boolean Value.asBoolean)
  | .nest register levels n => s.nest register levels n
  | .append t bytes => s.edit t (editingText fun b m => b.append bytes m)
  | .write t pieces => s.edit t (writing pieces)
  | .pushByte t byte times => s.edit t (pushing byte times)
  | .reserve t additional => s.edit t (editingText fun b m => b.reserve additional m)
  | .truncate t len => s.edit t (changingText fun b => b.truncate len)
  | .clearText t => s.edit t (changingText TextBuffer.clear)
  | .withPolicy t policy => s.edit t (changingText fun b => b.withPolicy policy)
  | .textState t => s.look t fun v m =>
    viewing (fun b => .textState b (m.heap.statsOf b.allocator)) Value.asText v m
  | .pushBack t v => s.editWith t v fun built => editing .ofUnit fun v m => v.pushBack built m
  | .pushFront t v => s.editWith t v fun built => editing .ofUnit fun v m => v.pushFront built m
  | .fill t times start atFront => s.edit t (filling atFront times start)
  | .popFront t => s.edit t (popping Value.popFront)
  | .popBack t => s.edit t (popping Value.popBack)
  | .remove t position keep => s.remove t position keep
  | .get t position => s.look t (viewingList .found fun l _ => l.get position)
  | .listState t => s.look t (viewingList .listState ValueList.state)
  | .clearList t => s.edit t (editing .ofUnit fun v m => v.onList m ValueList.clear)
  | .iterate t script => s.look t (viewingList .sightings fun l _ => l.cursor.glances script)
  | .consume register script => s.consume register script
  | .setLimit tracker limit => (.done, s.setLimit tracker limit)
  | .setRoom tracker room => (.done, s.setRoom tracker room)
  | .describe tracker => (.description (s.machine.heap.describe (s.arrangement.handle tracker)), s)
  | .allocate name layout n => s.allocate name layout (s.allocator n)
  | .resize name size zeroed => s.resize name size zeroed
  | .deallocate name => s.deallocate name

def step (s : Session) (t : Step) : StepReport × Session :=
  let earlier := s.machine.events.length
  let answer := s.perform t.command
  let after := answer.2
  (⟨answer.1, t.watched.map after.register?, after.stats, after.machine.eventsAfter earlier⟩, after)

/--
What is shown of the report of each step, and the counters after everything has been released. A
report is shown before the next step begins, so that no later step finds its values in use.
-/
def run {β : Type} (shown : StepReport → β) (s : Session) : List Step → List β × List Stats
  | [] => ([], s.finish.stats)
  | t :: more =>
    let answer := s.step t
    let first := shown answer.1
    let rest := answer.2.run shown more
    (first :: rest.1, rest.2)

theorem run_shown {β : Type} (shown : StepReport → β) (s : Session) (steps : List Step) :
    s.run shown steps = ((s.run id steps).1.map shown, (s.run id steps).2) := by
  induction steps generalizing s with
  | nil => rfl
  | cons t more ih => simp [run, ih]

end Session
end TrackedValues
