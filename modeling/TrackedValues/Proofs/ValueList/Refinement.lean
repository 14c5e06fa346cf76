import TrackedValues.Proofs.SlotList.Storage
import TrackedValues.Value.Editing

/-!
A list of values behaves as a plain sequence. The same operations run on both, step by step; all
that the sequence has to be told is whether there was storage for one more element.
-/
namespace TrackedValues

inductive Action (α : Type)
  | pushBack (x : α)
  | pushFront (x : α)
  | popFront
  | popBack
  | remove (position : Nat)
  | get (position : Nat)
  | overwrite (position : Nat) (x : α)
  | front
  | back
  | clear
  | len
  | isEmpty

inductive Answer (α : Type)
  | done
  | found (x : Option α)
  | size (n : Nat)
  | truth (b : Bool)
  | failed (e : Error)

namespace Answer
variable {α : Type}

def ofUnit : Except Error Unit → Answer α
  | .ok _ => done
  | .error e => failed e

def ofElement : Except Error α → Answer α
  | .ok x => found (some x)
  | .error e => failed e

def ofOption : Except Error (Option α) → Answer α
  | .ok x => found x
  | .error e => failed e

def ofOverwrite : Except Error (Option Unit) → Answer α
  | .ok (some _) => done
  | .ok none => found none
  | .error e => failed e

end Answer

namespace Sequence
variable {α : Type}

/-- An operation on a plain sequence, with the word on storage for one more element. -/
def perform (storage : Except AllocationError Unit) (xs : List α) :
    Action α → Answer α × List α
  | .pushBack x =>
    match storage with
    | .ok _ => (.done, xs ++ [x])
    | .error e => (.failed (.allocation e), xs)
  | .pushFront x =>
    match storage with
    | .ok _ => (.done, x :: xs)
    | .error e => (.failed (.allocation e), xs)
  | .popFront => (.found xs.head?, xs.tail)
  | .popBack => (.found xs.getLast?, xs.dropLast)
  | .remove position =>
    match xs[position]? with
    | some x => (.found (some x), xs.eraseIdx position)
    | none => (.failed (.indexOutOfRange position xs.length), xs)
  | .get position => (.found xs[position]?, xs)
  | .overwrite position x =>
    if position < xs.length then (.done, xs.set position x) else (.found none, xs)
  | .front => (.found xs.head?, xs)
  | .back => (.found xs.getLast?, xs)
  | .clear => (.done, [])
  | .len => (.size xs.length, xs)
  | .isEmpty => (.truth xs.isEmpty, xs)

def trace (xs : List α) : List (Except AllocationError Unit × Action α) → List (Answer α × List α)
  | [] => []
  | (storage, action) :: more =>
    let after := perform storage xs action
    after :: trace after.2 more

end Sequence

namespace ValueList

def overwriteAt (l : ValueList) (position : Nat) (v : Value) (m : Machine) :
    Outcome Error ValueList (Option Unit) :=
  match l.slotAt position with
  | .error e => ⟨.error e, l, m⟩
  | .ok none => ⟨.ok none, l, m⟩
  | .ok (some i) =>
    match l.valueAt i with
    | .error e => ⟨.error e, l, m⟩
    | .ok element => ⟨.ok (some ()), l.setValue i v, element.release m⟩

theorem editAt_overwrite (l : ValueList) (position : Nat) (v : Value) (m : Machine) :
    Value.editAt (fun old m => ((), v, old.release m)) [position] (.list l) m =
      (overwriteAt l position v m).within .list := by
  unfold Value.editAt overwriteAt
  cases l.slotAt position with
  | error e => rfl
  | ok place =>
    cases place with
    | none => rfl
    | some i =>
      cases here : l.valueAt i with
      | error e =>
        simp only [here]
        rfl
      | ok element =>
        have written := SlotList.setValue_setValue l i (.boolean false) v
        simp only [here, Value.editAt, Outcome.within, written]

def perform (l : ValueList) (m : Machine) : Action Value → Answer Value × ValueList × Machine
  | .pushBack v =>
    let o := ValueList.pushBack l v m
    (.ofUnit o.result, o.target, o.machine)
  | .pushFront v =>
    let o := ValueList.pushFront l v m
    (.ofUnit o.result, o.target, o.machine)
  | .popFront =>
    let taken := SlotList.popFront l
    (.ofOption taken.1, taken.2, m)
  | .popBack =>
    let taken := SlotList.popBack l
    (.ofOption taken.1, taken.2, m)
  | .remove position =>
    let o := SlotList.remove l position m
    (.ofElement o.result, o.target, o.machine)
  | .get position => (.ofOption (l.get position), l, m)
  | .overwrite position v =>
    let o := overwriteAt l position v m
    (.ofOverwrite o.result, o.target, o.machine)
  | .front => (.ofOption l.front, l, m)
  | .back => (.ofOption l.back, l, m)
  | .clear =>
    let o := ValueList.clear l m
    (.ofUnit o.result, o.target, o.machine)
  | .len => (.size l.len, l, m)
  | .isEmpty => (.truth l.isEmpty, l, m)

theorem keepOrRelease_result (v : Value) (o : Outcome Error ValueList Unit) :
    (keepOrRelease v o).result = o.result := by
  unfold keepOrRelease
  split <;> rfl

theorem keepOrRelease_target (v : Value) (o : Outcome Error ValueList Unit) :
    (keepOrRelease v o).target = o.target := by
  unfold keepOrRelease
  split <;> rfl

theorem perform_holds {l : ValueList} {xs : List Value} (holds : SlotList.Holds l xs) (m : Machine)
    (action : Action Value) :
    (perform l m action).1 = (Sequence.perform (l.storage m) xs action).1 ∧
      SlotList.Holds (perform l m action).2.1 (Sequence.perform (l.storage m) xs action).2 := by
  cases action with
  | pushBack v =>
    simp only [perform, Sequence.perform, pushBack, keepOrRelease_result, keepOrRelease_target]
    cases word : l.storage m with
    | ok _ =>
      obtain ⟨pushed, after⟩ := SlotList.pushBack_granted holds word v
      rw [pushed]
      exact ⟨rfl, after⟩
    | error e =>
      obtain ⟨m', _, refused⟩ := SlotList.pushWith_refused word (·.linkBack v) l.tail
      rw [SlotList.pushBack, refused]
      exact ⟨rfl, holds⟩
  | pushFront v =>
    simp only [perform, Sequence.perform, pushFront, keepOrRelease_result, keepOrRelease_target]
    cases word : l.storage m with
    | ok _ =>
      obtain ⟨pushed, after⟩ := SlotList.pushFront_granted holds word v
      rw [pushed]
      exact ⟨rfl, after⟩
    | error e =>
      obtain ⟨m', _, refused⟩ := SlotList.pushWith_refused word (·.linkFront v) l.head
      rw [SlotList.pushFront, refused]
      exact ⟨rfl, holds⟩
  | popFront =>
    obtain ⟨taken, after⟩ := SlotList.popFront_eq holds
    exact ⟨congrArg Answer.ofOption taken, after⟩
  | popBack =>
    obtain ⟨taken, after⟩ := SlotList.popBack_eq holds
    exact ⟨congrArg Answer.ofOption taken, after⟩
  | remove position =>
    simp only [perform, Sequence.perform]
    by_cases inside : position < xs.length
    · obtain ⟨removed, after⟩ := SlotList.remove_inside holds inside m
      rw [removed, List.getElem?_eq_getElem inside]
      exact ⟨rfl, after⟩
    · have outside := Nat.not_lt.mp inside
      rw [SlotList.remove_outside holds outside m, List.getElem?_eq_none outside]
      exact ⟨rfl, holds⟩
  | get position => exact ⟨congrArg Answer.ofOption (SlotList.get_eq holds position), holds⟩
  | overwrite position v =>
    simp only [perform, Sequence.perform, overwriteAt]
    by_cases inside : position < xs.length
    · obtain ⟨i, found, here, after⟩ := SlotList.setValue_inside holds inside
      simp only [found, here, if_pos inside]
      exact ⟨rfl, after v⟩
    · simp only [SlotList.slotAt_outside holds (Nat.not_lt.mp inside), if_neg inside]
      exact ⟨rfl, holds⟩
  | front => exact ⟨congrArg Answer.ofOption (SlotList.front_eq holds), holds⟩
  | back => exact ⟨congrArg Answer.ofOption (SlotList.back_eq holds), holds⟩
  | clear => exact ⟨rfl, SlotList.holds_clear l⟩
  | len => exact ⟨congrArg Answer.size (SlotList.len_eq_length holds), holds⟩
  | isEmpty =>
    refine ⟨congrArg Answer.truth ?_, holds⟩
    rw [SlotList.isEmpty, SlotList.len_eq_length holds]
    cases xs <;> rfl

/-- A turn of a run: what happens to the machine in the meantime, and then an operation. -/
structure Turn where
  meanwhile : Machine → Machine
  action : Action Value

def trace (l : ValueList) (m : Machine) : List Turn → List (Answer Value × List Value)
  | [] => []
  | turn :: more =>
    let after := perform l (turn.meanwhile m) turn.action
    (after.1, after.2.1.followed) :: trace after.2.1 after.2.2 more

/-- The operations of a run, each with the word on storage that the list gets at that turn. -/
def heard (l : ValueList) (m : Machine) :
    List Turn → List (Except AllocationError Unit × Action Value)
  | [] => []
  | turn :: more =>
    let after := perform l (turn.meanwhile m) turn.action
    (l.storage (turn.meanwhile m), turn.action) :: heard after.2.1 after.2.2 more

/-- A list as it is built: without a table, or with one for some number of elements. -/
inductive Fresh : ValueList → Prop
  | empty (a : Allocator) : Fresh (.empty a)
  | withCapacity {a : Allocator} {capacity : Nat} {m m' : Machine} {l : ValueList}
    (built : SlotList.withCapacity a capacity m = (.ok l, m')) : Fresh l

theorem fresh_holds {l : ValueList} (fresh : Fresh l) : SlotList.Holds l [] := by
  cases fresh with
  | empty a => exact SlotList.holds_empty a
  | withCapacity built => exact SlotList.withCapacity_holds built

theorem trace_holds {l : ValueList} {xs : List Value} (holds : SlotList.Holds l xs) (m : Machine)
    (turns : List Turn) : trace l m turns = Sequence.trace xs (heard l m turns) := by
  induction turns generalizing l xs m with
  | nil => rfl
  | cons turn more ih =>
    obtain ⟨answer, after⟩ := perform_holds holds (turn.meanwhile m) turn.action
    rw [trace, heard, Sequence.trace, ih after, SlotList.followed_eq after, answer]

/-- Every run of a list answers as a plain sequence does, and leads through the same elements. -/
theorem trace_eq_sequence {l : ValueList} (fresh : Fresh l) (m : Machine) (turns : List Turn) :
    trace l m turns = Sequence.trace [] (heard l m turns) :=
  trace_holds (fresh_holds fresh) m turns

def oneBlock : Base where
  accepts n _ := n == 0
  scratch _ _ := 0

/-- Slots are vacated and used again, and the second table is refused. -/
theorem trace_one_table :
    Fresh (.empty .base) ∧
      trace (.empty .base) (.start oneBlock) [⟨id, .pushBack (.boolean true)⟩,
        ⟨id, .pushFront (.integer 7)⟩, ⟨id, .popBack⟩, ⟨id, .pushBack (.integer 8)⟩,
        ⟨id, .remove 5⟩, ⟨id, .pushFront (.integer 1)⟩, ⟨id, .pushBack (.integer 9)⟩,
        ⟨id, .pushBack (.integer 6)⟩, ⟨id, .overwrite 2 (.integer 3)⟩] =
      [(.done, [.boolean true]), (.done, [.integer 7, .boolean true]),
        (.found (some (.boolean true)), [.integer 7]), (.done, [.integer 7, .integer 8]),
        (.failed (.indexOutOfRange 5 2), [.integer 7, .integer 8]),
        (.done, [.integer 1, .integer 7, .integer 8]),
        (.done, [.integer 1, .integer 7, .integer 8, .integer 9]),
        (.failed (.allocation ⟨560⟩), [.integer 1, .integer 7, .integer 8, .integer 9]),
        (.done, [.integer 1, .integer 7, .integer 3, .integer 9])] :=
  ⟨.empty _, (trace_eq_sequence (.empty _) _ _).trans (by rfl)⟩

end ValueList
end TrackedValues
