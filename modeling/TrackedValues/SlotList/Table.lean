import TrackedValues.SlotList.Links

/-!
The storage of a list's table. A push asks the allocator for a larger table only when there is no
vacant slot and the table is full; a refusal leaves the list as it was.
-/
namespace TrackedValues.SlotList
variable {α : Type}

def tableBytes (l : SlotList α) : Nat := l.allocator.slotSize * l.capacity

/-- The error of a table that cannot grow names the slots that were wanted. -/
def refuse (l : SlotList α) (wanted : Nat) (m : Machine) : Outcome Error (SlotList α) Unit :=
  let bytes := saturatingMul l.allocator.slotSize wanted
  ⟨.error (.allocation ⟨bytes⟩), l, m.emit (.tableRefused wanted bytes)⟩

def growth (l : SlotList α) (target : Nat) : Request :=
  if l.capacity = 0 then .fresh (l.allocator.slotSize * target)
  else .grow l.tableBytes (l.allocator.slotSize * target)

def growTable (l : SlotList α) (target wanted : Nat) (m : Machine) :
    Outcome Error (SlotList α) Unit :=
  if tableMax < l.allocator.slotSize * target then l.refuse wanted m
  else
    match m.request l.allocator (l.growth target) with
    | (some _, m') => ⟨.ok (), { l with capacity := target }, m'⟩
    | (none, m') => l.refuse wanted m'

def nextCapacity (l : SlotList α) : Nat := max (max (2 * l.capacity) (l.slots.size + 1)) 4

/-- Sees to it that one more element has a slot: a vacant one, one within capacity, or a new one. -/
def reserveSlot (l : SlotList α) (m : Machine) : Outcome Error (SlotList α) Unit :=
  if l.free.isSome ∨ l.slots.size < l.capacity then ⟨.ok (), l, m⟩
  else l.growTable l.nextCapacity (l.slots.size + 1) m

/-- An empty list whose table holds a number of slots; a table has at least four. -/
def withCapacity (a : Allocator) (capacity : Nat) (m : Machine) :
    Except Error (SlotList α) × Machine :=
  if capacity = 0 then (.ok (empty a), m)
  else
    let o := (empty a : SlotList α).growTable (max capacity 4) capacity m
    match o.result with
    | .ok _ => (.ok o.target, o.machine)
    | .error e => (.error e, o.machine)

def pushWith (link : SlotList α → SlotList α) (neighbour : Option Nat) (l : SlotList α)
    (m : Machine) : Outcome Error (SlotList α) Unit :=
  (l.reserveSlot m).andThen fun _ roomy m =>
    match roomy.linkObstacle? neighbour with
    | some i => ⟨.error (.brokenLink i), roomy, m⟩
    | none => ⟨.ok (), link roomy, m⟩

def pushBack (l : SlotList α) (value : α) (m : Machine) : Outcome Error (SlotList α) Unit :=
  let last := l.tail
  pushWith (·.linkBack value) last l m

def pushFront (l : SlotList α) (value : α) (m : Machine) : Outcome Error (SlotList α) Unit :=
  let first := l.head
  pushWith (·.linkFront value) first l m

def releaseTable (l : SlotList α) (m : Machine) : Machine :=
  if l.capacity = 0 then m else m.release l.allocator l.tableBytes

end TrackedValues.SlotList
