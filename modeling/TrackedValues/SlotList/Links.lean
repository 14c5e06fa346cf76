import TrackedValues.SlotList.Basic

/-!
Linking an element into a list at either end and unlinking it again. These steps need no storage;
the table already has a slot for a new element when one is linked. The slots that a step touches
are checked before anything changes, so the changes themselves cannot fail.
-/
namespace TrackedValues

def Slot.withNext {α : Type} (link : Option Nat) : Slot α → Slot α
  | .occupied prev _ value => .occupied prev link value
  | .vacant nextFree => .vacant nextFree

def Slot.withPrev {α : Type} (link : Option Nat) : Slot α → Slot α
  | .occupied _ next value => .occupied link next value
  | .vacant nextFree => .vacant nextFree

def Slot.withValue {α : Type} (value : α) : Slot α → Slot α
  | .occupied prev next _ => .occupied prev next value
  | .vacant nextFree => .vacant nextFree

theorem Slot.withValue_withValue {α : Type} (a b : α) (s : Slot α) :
    (s.withValue a).withValue b = s.withValue b := by
  cases s <;> rfl

namespace SlotList
variable {α : Type}

def IsOccupied (l : SlotList α) (i : Nat) : Prop :=
  ∃ prev next value, l.slots[i]? = some (.occupied prev next value)

instance (l : SlotList α) (i : Nat) : Decidable (l.IsOccupied i) :=
  match found : l.slots[i]? with
  | some (.occupied prev next value) => .isTrue ⟨prev, next, value, found⟩
  | some (.vacant _) => .isFalse fun ⟨_, _, _, other⟩ => by simp [found] at other
  | none => .isFalse fun ⟨_, _, _, other⟩ => by simp [found] at other

def IsVacant (l : SlotList α) (i : Nat) : Prop := ∃ nextFree, l.slots[i]? = some (.vacant nextFree)

instance (l : SlotList α) (i : Nat) : Decidable (l.IsVacant i) :=
  match found : l.slots[i]? with
  | some (.vacant nextFree) => .isTrue ⟨nextFree, found⟩
  | some (.occupied _ _ _) => .isFalse fun ⟨_, other⟩ => by simp [found] at other
  | none => .isFalse fun ⟨_, other⟩ => by simp [found] at other

def dangling? (l : SlotList α) (link : Option Nat) : Option Nat :=
  link.filter fun i => ¬l.IsOccupied i

/-- What stands in the way of linking: a free slot that is not vacant, or a dangling neighbour. -/
def linkObstacle? (l : SlotList α) (neighbour : Option Nat) : Option Nat :=
  (l.free.filter fun i => ¬l.IsVacant i).or (l.dangling? neighbour)

/-- Where a link leads if that is not an occupied slot other than `i`. -/
def danglingBeside? (l : SlotList α) (i : Nat) (link : Option Nat) : Option Nat :=
  link.filter fun j => j = i ∨ ¬l.IsOccupied j

/--
What stands in the way of unlinking: a neighbour that is dangling once the slot is vacant, or a slot
of a list without elements.
-/
def unlinkObstacle? (l : SlotList α) (i : Nat) (prev next : Option Nat) : Option Nat :=
  ((l.danglingBeside? i prev).or (l.danglingBeside? i next)).or (if l.len = 0 then some i else none)

def setValue (l : SlotList α) (i : Nat) (value : α) : SlotList α :=
  { l with slots := l.slots.modify i (Slot.withValue value) }

theorem setValue_setValue (l : SlotList α) (i : Nat) (a b : α) :
    (l.setValue i a).setValue i b = l.setValue i b := by
  have same : (l.slots.modify i (Slot.withValue a)).modify i (Slot.withValue b) =
      l.slots.modify i (Slot.withValue b) := by
    apply Array.ext_getElem?
    intro j
    simp only [Array.getElem?_modify]
    split
    · simp [Function.comp_def, Slot.withValue_withValue]
    · rfl
  simp only [setValue, same]

/-- What follows a slot is `link`: the next link of the slot, or the head if there is no slot. -/
def setNextOrHead (l : SlotList α) (place link : Option Nat) : SlotList α :=
  match place with
  | some i => { l with slots := l.slots.modify i (Slot.withNext link) }
  | none => { l with head := link }

def setPrevOrTail (l : SlotList α) (place link : Option Nat) : SlotList α :=
  match place with
  | some i => { l with slots := l.slots.modify i (Slot.withPrev link) }
  | none => { l with tail := link }

def nextSlot (l : SlotList α) : Nat := l.free.getD l.slots.size

def freeAfter (l : SlotList α) (i : Nat) : Option Nat :=
  match l.slots[i]? with
  | some (.vacant nextFree) => nextFree
  | _ => none

def place (l : SlotList α) (prev next : Option Nat) (value : α) : SlotList α :=
  match l.free with
  | none => { l with slots := l.slots.push (.occupied prev next value), len := l.len + 1 }
  | some i =>
    let rest := l.freeAfter i
    { l with
      slots := l.slots.setIfInBounds i (.occupied prev next value), free := rest, len := l.len + 1 }

def linkBack (l : SlotList α) (value : α) : SlotList α :=
  let i := l.nextSlot
  let last := l.tail
  { (l.place last none value).setNextOrHead last (some i) with tail := some i }

def linkFront (l : SlotList α) (value : α) : SlotList α :=
  let i := l.nextSlot
  let first := l.head
  { (l.place none first value).setPrevOrTail first (some i) with head := some i }

/-- A list that has lost its last element forgets its vacant slots. -/
def forgetIfEmpty (l : SlotList α) : SlotList α :=
  if l.len = 0 then { l with slots := #[], free := none } else l

def vacate (l : SlotList α) (i : Nat) : SlotList α :=
  { l with slots := l.slots.setIfInBounds i (.vacant l.free), free := some i, len := l.len - 1 }

theorem isOccupied_vacate (l : SlotList α) (i j : Nat) :
    (l.vacate i).IsOccupied j ↔ j ≠ i ∧ l.IsOccupied j := by
  simp only [IsOccupied, vacate, Array.getElem?_setIfInBounds]
  by_cases same : i = j
  · subst same
    by_cases inside : i < l.slots.size <;> simp [inside]
  · simp [same, Ne.symm same]

/-- The neighbours are checked as they are when the slot has lost its element. -/
theorem dangling?_vacate (l : SlotList α) (i : Nat) (link : Option Nat) :
    (l.vacate i).dangling? link = l.danglingBeside? i link := by
  unfold dangling? danglingBeside?
  congr 1
  funext j
  by_cases same : j = i <;> simp [isOccupied_vacate, same]

def detach (l : SlotList α) (i : Nat) (prev next : Option Nat) : SlotList α :=
  forgetIfEmpty (((l.vacate i).setNextOrHead prev next).setPrevOrTail next prev)

def unlink (l : SlotList α) (i : Nat) : Except Error α × SlotList α :=
  match l.node i with
  | .error e => (.error e, l)
  | .ok (prev, next, value) =>
    match l.unlinkObstacle? i prev next with
    | some j => (.error (.brokenLink j), l)
    | none => (.ok value, l.detach i prev next)

def popAt (l : SlotList α) : Option Nat → Except Error (Option α) × SlotList α
  | none => (.ok none, l)
  | some i =>
    let taken := l.unlink i
    (taken.1.map some, taken.2)

def popFront (l : SlotList α) : Except Error (Option α) × SlotList α := l.popAt l.head

def popBack (l : SlotList α) : Except Error (Option α) × SlotList α := l.popAt l.tail

def remove (l : SlotList α) (position : Nat) (m : Machine) : Outcome Error (SlotList α) α :=
  match l.slotAt position with
  | .error e => ⟨.error e, l, m⟩
  | .ok none => ⟨.error (.indexOutOfRange position l.len), l, m⟩
  | .ok (some i) =>
    let taken := l.unlink i
    match taken.1 with
    | .error e => ⟨.error e, taken.2, m⟩
    | .ok value => ⟨.ok value, taken.2, m.emit (.removed position taken.2.len)⟩

def clear (l : SlotList α) : SlotList α :=
  { l with slots := #[], head := none, tail := none, free := none, len := 0 }

end SlotList
end TrackedValues
