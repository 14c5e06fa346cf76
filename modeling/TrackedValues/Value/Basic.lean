import TrackedValues.Binary64
import TrackedValues.Buffer.Basic
import TrackedValues.SlotList.Basic

/-!
Runtime values: integers, reals and booleans, which are plain data, and text buffers and lists,
which own storage. Every recursion over a value is a fold, in which a list is seen with the
answers for its elements in the places of the elements. The content of a value is what it says,
without how it is stored.
-/
namespace TrackedValues

inductive Value
  | integer (n : Int64)
  | real (x : Binary64)
  | text (b : TextBuffer)
  | boolean (b : Bool)
  | list (l : SlotList Value)

abbrev ValueList := SlotList Value

namespace Value

def shape : Value → Shape
  | integer _ => .integer
  | real _ => .real
  | text _ => .string
  | boolean _ => .boolean
  | list _ => .list

def emptyList (a : Allocator) : Value := .list (.empty a)

/-- One answer for each shape of value. -/
structure Cases (β : Type) where
  integer : Int64 → β
  real : Binary64 → β
  text : TextBuffer → β
  boolean : Bool → β
  list : SlotList β → β

mutual

def fold {β : Type} (c : Cases β) : Value → β
  | integer n => c.integer n
  | real x => c.real x
  | text b => c.text b
  | boolean b => c.boolean b
  | list l => c.list (foldList c l)

def foldList {β : Type} (c : Cases β) : SlotList Value → SlotList β
  | ⟨allocator, slots, capacity, head, tail, free, len⟩ =>
    ⟨allocator, foldTable c slots, capacity, head, tail, free, len⟩

def foldTable {β : Type} (c : Cases β) : Array (Slot Value) → Array (Slot β)
  | ⟨slots⟩ => ⟨foldSlots c slots⟩

def foldSlots {β : Type} (c : Cases β) : List (Slot Value) → List (Slot β)
  | [] => []
  | s :: rest => foldSlot c s :: foldSlots c rest

def foldSlot {β : Type} (c : Cases β) : Slot Value → Slot β
  | .occupied prev next value => .occupied prev next (fold c value)
  | .vacant nextFree => .vacant nextFree

end

theorem foldSlot_eq_map {β : Type} (c : Cases β) (s : Slot Value) :
    foldSlot c s = s.map (fold c) := by
  cases s <;> simp [foldSlot, Slot.map]

theorem foldSlots_eq_map {β : Type} (c : Cases β) (slots : List (Slot Value)) :
    foldSlots c slots = slots.map (Slot.map (fold c)) := by
  induction slots with
  | nil => simp [foldSlots]
  | cons s rest ih => simp [foldSlots, foldSlot_eq_map, ih]

theorem foldTable_eq_map {β : Type} (c : Cases β) (slots : Array (Slot Value)) :
    foldTable c slots = slots.map (Slot.map (fold c)) := by
  cases slots
  simp [foldTable, foldSlots_eq_map]

theorem foldList_eq_map {β : Type} (c : Cases β) (l : SlotList Value) :
    foldList c l = l.map (fold c) := by
  cases l
  simp [foldList, foldTable_eq_map, SlotList.map]

theorem fold_list {β : Type} (c : Cases β) (l : SlotList Value) :
    fold c (list l) = c.list (l.map (fold c)) := by
  rw [fold, foldList_eq_map]

end Value

inductive Content
  | integer (n : Int64)
  | real (x : Binary64)
  | text (bytes : List UInt8)
  | boolean (b : Bool)
  | list (items : List Content)
  deriving Repr

def Value.contents : Value.Cases Content where
  integer := .integer
  real := .real
  text b := .text b.content
  boolean := .boolean
  list l := .list l.elements

def Value.content (v : Value) : Content := v.fold Value.contents

theorem Value.content_list (l : ValueList) :
    (Value.list l).content = .list (l.elements.map Value.content) := by
  unfold Value.content
  rw [Value.fold_list]
  exact congrArg Content.list (SlotList.elements_map _ l)

def ValueList.contents (l : ValueList) : List Content := (l.map Value.content).elements

end TrackedValues
