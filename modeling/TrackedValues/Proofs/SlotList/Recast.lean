import TrackedValues.SlotList.Iteration
import TrackedValues.SlotList.Links

/-!
Lists with other elements and on other allocators. What a list does with its links depends on
neither: reading, linking and unlinking commute with any change of all elements and of the
allocator, and the answers are the changed elements.
-/
namespace TrackedValues
variable {α β : Type} {handle : Allocator → Allocator} {f : α → β}

theorem Slot.map_withValue (f : α → β) (value : α) (s : Slot α) :
    (s.withValue value).map f = (s.map f).withValue (f value) := by
  cases s <;> rfl

theorem Slot.map_withNext (f : α → β) (link : Option Nat) (s : Slot α) :
    (s.withNext link).map f = (s.map f).withNext link := by
  cases s <;> rfl

theorem Slot.map_withPrev (f : α → β) (link : Option Nat) (s : Slot α) :
    (s.withPrev link).map f = (s.map f).withPrev link := by
  cases s <;> rfl

namespace SlotList

/-- The same table with other elements and on another allocator. -/
def recast (handle : Allocator → Allocator) (f : α → β) (l : SlotList α) : SlotList β :=
  { l.map f with allocator := handle l.allocator }

variable (l : SlotList α)

theorem map_self {f : α → α} (same : ∀ x ∈ l.stored, f x = x) : l.map f = l := by
  have each : ∀ s ∈ l.slots.toList, s.map f = s := by
    intro s member
    cases s with
    | vacant nextFree => rfl
    | occupied prev next value =>
      have stored : value ∈ l.stored := List.mem_filterMap.mpr ⟨_, member, rfl⟩
      exact congrArg (Slot.occupied prev next) (same value stored)
  have slots : l.slots.map (Slot.map f) = l.slots := by
    apply Array.toList_inj.mp
    rw [Array.toList_map, List.map_congr_left each, List.map_id']
  rw [SlotList.map, slots]

theorem getElem?_recast (i : Nat) :
    (l.recast handle f).slots[i]? = l.slots[i]?.map (Slot.map f) :=
  Array.getElem?_map

theorem size_recast : (l.recast handle f).slots.size = l.slots.size := Array.size_map

theorem map_modify {g : Slot α → Slot α} {g' : Slot β → Slot β}
    (same : ∀ s, (g s).map f = g' (s.map f)) (slots : Array (Slot α)) (i : Nat) :
    (slots.modify i g).map (Slot.map f) = (slots.map (Slot.map f)).modify i g' := by
  apply Array.ext_getElem?
  intro j
  simp only [Array.getElem?_map, Array.getElem?_modify]
  split
  · cases slots[j]? <;> simp [same]
  · rfl

theorem node_recast (i : Nat) :
    (l.recast handle f).node i = (l.node i).map fun n => (n.1, n.2.1, f n.2.2) := by
  unfold node
  rw [getElem?_recast]
  cases l.slots[i]? with
  | none => rfl
  | some s => cases s <;> rfl

theorem walkNext_recast (i steps : Nat) :
    (l.recast handle f).walkNext i steps = l.walkNext i steps := by
  induction steps generalizing i with
  | zero => rfl
  | succ steps ih =>
    rw [walkNext, walkNext, node_recast]
    cases l.node i with
    | error e => rfl
    | ok n =>
      obtain ⟨prev, next, value⟩ := n
      cases next with
      | none => rfl
      | some next => exact ih next

theorem walkPrev_recast (i steps : Nat) :
    (l.recast handle f).walkPrev i steps = l.walkPrev i steps := by
  induction steps generalizing i with
  | zero => rfl
  | succ steps ih =>
    rw [walkPrev, walkPrev, node_recast]
    cases l.node i with
    | error e => rfl
    | ok n =>
      obtain ⟨prev, next, value⟩ := n
      cases prev with
      | none => rfl
      | some prev => exact ih prev

theorem slotAt_recast (position : Nat) :
    (l.recast handle f).slotAt position = l.slotAt position := by
  have len : (l.recast handle f).len = l.len := rfl
  have head : (l.recast handle f).head = l.head := rfl
  have tail : (l.recast handle f).tail = l.tail := rfl
  unfold slotAt
  simp only [len, head, tail, walkNext_recast, walkPrev_recast]

theorem valueAt_recast (i : Nat) : (l.recast handle f).valueAt i = (l.valueAt i).map f := by
  rw [valueAt, valueAt, node_recast]
  cases l.node i <;> rfl

theorem valueOf_recast (place : Option Nat) :
    (l.recast handle f).valueOf place = (l.valueOf place).map (Option.map f) := by
  cases place with
  | none => rfl
  | some i =>
    rw [valueOf, valueOf, valueAt_recast]
    cases l.valueAt i <;> rfl

theorem get_recast (position : Nat) :
    (l.recast handle f).get position = (l.get position).map (Option.map f) := by
  rw [get, get, slotAt_recast]
  cases l.slotAt position with
  | error e => rfl
  | ok place => exact l.valueOf_recast place

theorem front_recast : (l.recast handle f).front = l.front.map (Option.map f) :=
  l.valueOf_recast l.head

theorem back_recast : (l.recast handle f).back = l.back.map (Option.map f) :=
  l.valueOf_recast l.tail

theorem elements_recast : (l.recast handle f).elements = l.elements.map f := by
  rw [← elements_map]
  have chain (n : Nat) (place : Option Nat) :
      (l.recast handle f).chainFrom n place = (l.map f).chainFrom n place := by
    induction n generalizing place with
    | zero => cases place <;> rfl
    | succ n ih =>
      cases place with
      | none => rfl
      | some i =>
        have here : (l.recast handle f).slots[i]? = (l.map f).slots[i]? := rfl
        simp only [chainFrom, here, ih]
  have whole : (l.recast handle f).chain = (l.map f).chain := chain l.len l.head
  rw [elements, elements, whole]
  rfl

theorem stored_recast : (l.recast handle f).stored = l.stored.map f := stored_map f l

theorem isOccupied_recast (i : Nat) : (l.recast handle f).IsOccupied i ↔ l.IsOccupied i := by
  unfold IsOccupied
  rw [getElem?_recast]
  cases l.slots[i]? with
  | none => simp
  | some s => cases s <;> simp [Slot.map]

theorem isVacant_recast (i : Nat) : (l.recast handle f).IsVacant i ↔ l.IsVacant i := by
  unfold IsVacant
  rw [getElem?_recast]
  cases l.slots[i]? with
  | none => simp
  | some s => cases s <;> simp [Slot.map]

theorem dangling_recast (link : Option Nat) :
    (l.recast handle f).dangling? link = l.dangling? link := by
  simp only [dangling?, isOccupied_recast]

theorem danglingBeside_recast (i : Nat) (link : Option Nat) :
    (l.recast handle f).danglingBeside? i link = l.danglingBeside? i link := by
  simp only [danglingBeside?, isOccupied_recast]

theorem linkObstacle_recast (neighbour : Option Nat) :
    (l.recast handle f).linkObstacle? neighbour = l.linkObstacle? neighbour := by
  have free : (l.recast handle f).free = l.free := rfl
  simp only [linkObstacle?, free, isVacant_recast, dangling_recast]

theorem unlinkObstacle_recast (i : Nat) (prev next : Option Nat) :
    (l.recast handle f).unlinkObstacle? i prev next = l.unlinkObstacle? i prev next := by
  simp only [unlinkObstacle?, danglingBeside_recast]
  rfl

theorem recast_slots {l : SlotList α} {slots : Array (Slot α)} {slots' : Array (Slot β)}
    (same : slots.map (Slot.map f) = slots') :
    ({ l with slots := slots } : SlotList α).recast handle f =
      { l.recast handle f with slots := slots' } := by
  subst same
  rfl

theorem recast_setValue (i : Nat) (value : α) :
    (l.setValue i value).recast handle f = (l.recast handle f).setValue i (f value) :=
  recast_slots (map_modify (Slot.map_withValue f value) l.slots i)

theorem recast_setNextOrHead (place link : Option Nat) :
    (l.setNextOrHead place link).recast handle f =
      (l.recast handle f).setNextOrHead place link := by
  cases place with
  | none => rfl
  | some i => exact recast_slots (map_modify (Slot.map_withNext f link) l.slots i)

theorem recast_setPrevOrTail (place link : Option Nat) :
    (l.setPrevOrTail place link).recast handle f =
      (l.recast handle f).setPrevOrTail place link := by
  cases place with
  | none => rfl
  | some i => exact recast_slots (map_modify (Slot.map_withPrev f link) l.slots i)

theorem freeAfter_recast (i : Nat) : (l.recast handle f).freeAfter i = l.freeAfter i := by
  unfold freeAfter
  rw [getElem?_recast]
  cases l.slots[i]? with
  | none => rfl
  | some s => cases s <;> rfl

theorem recast_place (prev next : Option Nat) (value : α) :
    (l.place prev next value).recast handle f = (l.recast handle f).place prev next (f value) := by
  have free : (l.recast handle f).free = l.free := rfl
  unfold place
  rw [free]
  cases l.free with
  | none =>
    simp only [recast, map, Array.map_push]
    rfl
  | some i =>
    simp only [freeAfter_recast]
    simp only [recast, map, Array.map_setIfInBounds]
    rfl

theorem nextSlot_recast : (l.recast handle f).nextSlot = l.nextSlot := by
  unfold nextSlot
  rw [size_recast]
  rfl

theorem recast_linkBack (value : α) :
    (l.linkBack value).recast handle f = (l.recast handle f).linkBack (f value) := by
  have linked : ((l.place l.tail none value).setNextOrHead l.tail (some l.nextSlot)).recast
      handle f = _ := recast_setNextOrHead _ l.tail (some l.nextSlot)
  rw [recast_place] at linked
  unfold linkBack
  rw [nextSlot_recast]
  exact congrArg (fun k : SlotList β => { k with tail := some l.nextSlot }) linked

theorem recast_linkFront (value : α) :
    (l.linkFront value).recast handle f = (l.recast handle f).linkFront (f value) := by
  have linked : ((l.place none l.head value).setPrevOrTail l.head (some l.nextSlot)).recast
      handle f = _ := recast_setPrevOrTail _ l.head (some l.nextSlot)
  rw [recast_place] at linked
  unfold linkFront
  rw [nextSlot_recast]
  exact congrArg (fun k : SlotList β => { k with head := some l.nextSlot }) linked

theorem recast_forgetIfEmpty :
    l.forgetIfEmpty.recast handle f = (l.recast handle f).forgetIfEmpty := by
  have len : (l.recast handle f).len = l.len := rfl
  unfold forgetIfEmpty
  rw [len]
  split
  · simp only [recast, map, Array.map_empty]
  · rfl

theorem recast_vacate (i : Nat) :
    (l.vacate i).recast handle f = (l.recast handle f).vacate i := by
  simp only [vacate, recast, map, Array.map_setIfInBounds]
  rfl

theorem recast_detach (i : Nat) (prev next : Option Nat) :
    (l.detach i prev next).recast handle f = (l.recast handle f).detach i prev next := by
  unfold detach
  rw [recast_forgetIfEmpty, recast_setPrevOrTail, recast_setNextOrHead, recast_vacate]

theorem unlink_recast (i : Nat) :
    (l.recast handle f).unlink i = ((l.unlink i).1.map f, (l.unlink i).2.recast handle f) := by
  unfold unlink
  rw [node_recast]
  cases l.node i with
  | error e => rfl
  | ok n =>
    obtain ⟨prev, next, value⟩ := n
    simp only [Except.map, unlinkObstacle_recast]
    cases l.unlinkObstacle? i prev next with
    | some j => rfl
    | none => exact congrArg (Prod.mk _) (l.recast_detach i prev next).symm

theorem popAt_recast (place : Option Nat) :
    (l.recast handle f).popAt place =
      ((l.popAt place).1.map (Option.map f), (l.popAt place).2.recast handle f) := by
  cases place with
  | none => rfl
  | some i =>
    simp only [popAt, unlink_recast]
    cases (l.unlink i).1 <;> rfl

theorem popFront_recast :
    (l.recast handle f).popFront =
      (l.popFront.1.map (Option.map f), l.popFront.2.recast handle f) :=
  l.popAt_recast l.head

theorem popBack_recast :
    (l.recast handle f).popBack =
      (l.popBack.1.map (Option.map f), l.popBack.2.recast handle f) :=
  l.popAt_recast l.tail

theorem recast_clear : l.clear.recast handle f = (l.recast handle f).clear := by
  simp only [clear, recast, map, Array.map_empty]

end SlotList

namespace Cursor

def recast (handle : Allocator → Allocator) (f : α → β) (c : Cursor α) : Cursor β :=
  ⟨c.list.recast handle f, c.front, c.back, c.remaining⟩

def changed (handle : Allocator → Allocator) (f : α → β) (seen : Option α × Cursor α) :
    Option β × Cursor β :=
  (seen.1.map f, seen.2.recast handle f)

theorem next_recast (c : Cursor α) :
    (c.recast handle f).next = c.next.map (changed handle f) := by
  have remaining : (c.recast handle f).remaining = c.remaining := rfl
  have front : (c.recast handle f).front = c.front := rfl
  unfold next
  rw [remaining, front]
  split
  · rfl
  · cases c.front with
    | none => rfl
    | some i =>
      have node : (c.list.recast handle f).node i = _ := c.list.node_recast i
      simp only [recast, node]
      cases c.list.node i <;> rfl

theorem nextBack_recast (c : Cursor α) :
    (c.recast handle f).nextBack = c.nextBack.map (changed handle f) := by
  have remaining : (c.recast handle f).remaining = c.remaining := rfl
  have back : (c.recast handle f).back = c.back := rfl
  unfold nextBack
  rw [remaining, back]
  split
  · rfl
  · cases c.back with
    | none => rfl
    | some i =>
      have node : (c.list.recast handle f).node i = _ := c.list.node_recast i
      simp only [recast, node]
      cases c.list.node i <;> rfl

theorem take_recast {step : Cursor α → Except Error (Option α × Cursor α)}
    {step' : Cursor β → Except Error (Option β × Cursor β)}
    (same : ∀ c, step' (c.recast handle f) = (step c).map (changed handle f)) (n : Nat)
    (c : Cursor α) :
    take step' n (c.recast handle f) = (take step n c).map (List.map f) := by
  induction n generalizing c with
  | zero => rfl
  | succ n ih =>
    rw [take, take, same]
    cases step c with
    | error e => rfl
    | ok seen =>
      obtain ⟨value, c'⟩ := seen
      cases value with
      | none => rfl
      | some value =>
        simp only [Except.map, changed, Option.map_some, ih]
        cases take step n c' <;> rfl

theorem toList_recast (c : Cursor α) :
    (c.recast handle f).toList = c.toList.map (List.map f) :=
  take_recast next_recast c.remaining c

theorem toListBack_recast (c : Cursor α) :
    (c.recast handle f).toListBack = c.toListBack.map (List.map f) :=
  take_recast nextBack_recast c.remaining c

end Cursor
end TrackedValues
