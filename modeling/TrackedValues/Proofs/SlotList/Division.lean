import Mathlib.Data.List.Basic
import TrackedValues.Proofs.SlotList.Ends
import TrackedValues.Proofs.SlotList.Sequence
import TrackedValues.SlotList.Iteration

/-!
Dividing a sequence between its two sides. Calls come from either side in any order, and each is
kept with the answer it got. The law of the answers speaks of the sequence and of the calls alone:
cursors, which only look at the elements of a list, and drains, which take them out, both keep it.
-/
namespace TrackedValues

inductive Side
  | front
  | back
  deriving DecidableEq, Repr

namespace Side
variable {α : Type}

def first? : Side → List α → Option α
  | front, xs => xs.head?
  | back, xs => xs.getLast?

def others : Side → List α → List α
  | front, xs => xs.tail
  | back, xs => xs.dropLast

end Side

/-- A call from one side, and its answer. -/
structure Call (α : Type) where
  side : Side
  answer : Option α

namespace Call
variable {α : Type}

def count (s : Side) (calls : List (Call α)) : Nat := (calls.filter (·.side = s)).length

def handed (s : Side) (calls : List (Call α)) : List α :=
  (calls.filter (·.side = s)).filterMap answer

def yields (calls : List (Call α)) : List α := calls.filterMap answer

/--
The answer that is due to a call after some others: as long as the calls are no more than the
elements, it is the element whose position from that side is the number of earlier calls from it.
-/
def due (xs : List α) (before : List (Call α)) (s : Side) : Option α :=
  if before.length < xs.length then
    match s with
    | .front => xs[count .front before]?
    | .back => xs[xs.length - 1 - count .back before]?
  else none

end Call

open Call (count handed yields)
variable {α : Type}

/--
The calls have divided the sequence between their sides, up to a rest that lies between what was
handed out in front and, the other way round, what was handed out at the back. Every answer is the
one that is due, and there is none any more once as many elements were handed out as there are.
-/
structure Divides (xs : List α) (calls : List (Call α)) (rest : List α) : Prop where
  due : ∀ call before, call :: before <:+ calls → call.answer = Call.due xs before call.side
  spent : ∀ call before, call :: before <:+ calls → (yields before).length = xs.length →
    call.answer = none
  parted : xs = (handed .front calls).reverse ++ rest ++ handed .back calls
  counted : rest.length + (yields calls).length = xs.length
  answered : rest ≠ [] → ∀ call ∈ calls, call.answer.isSome

namespace Call

theorem yields_cons (s : Side) (answer : Option α) (calls : List (Call α)) :
    yields (⟨s, answer⟩ :: calls) = answer.toList ++ yields calls := by
  cases answer <;> rfl

theorem handed_cons (s t : Side) (answer : Option α) (calls : List (Call α)) :
    handed t (⟨s, answer⟩ :: calls) =
      if s = t then answer.toList ++ handed t calls else handed t calls := by
  by_cases same : s = t
  · rw [if_pos same, handed, List.filter_cons_of_pos (by simpa using same)]
    exact yields_cons s answer _
  · rw [if_neg same, handed, List.filter_cons_of_neg (by simpa using same)]
    rfl

theorem length_yields {calls : List (Call α)} (each : ∀ call ∈ calls, call.answer.isSome) :
    (yields calls).length = calls.length := by
  induction calls with
  | nil => rfl
  | cons call calls ih =>
    rw [List.forall_mem_cons] at each
    obtain ⟨s, answer⟩ := call
    obtain ⟨x, rfl⟩ := Option.isSome_iff_exists.mp each.1
    rw [yields_cons, List.length_append, ih each.2]
    exact Nat.add_comm 1 calls.length

theorem length_handed {calls : List (Call α)} (each : ∀ call ∈ calls, call.answer.isSome)
    (s : Side) : (handed s calls).length = count s calls :=
  length_yields fun call member => each call (List.mem_filter.mp member).1

end Call

namespace Side

theorem front_parts (xs : List α) : (front.first? xs).toList ++ front.others xs = xs := by
  cases xs <;> rfl

theorem back_parts (xs : List α) : back.others xs ++ (back.first? xs).toList = xs := by
  rcases xs.eq_nil_or_concat with rfl | ⟨init, x, rfl⟩
  · rfl
  · simp [first?, others]

theorem length_parts (s : Side) (xs : List α) :
    (s.first? xs).toList.length + (s.others xs).length = xs.length := by
  cases s with
  | front => exact List.length_append.symm.trans (congrArg List.length (front_parts xs))
  | back =>
    rw [Nat.add_comm]
    exact List.length_append.symm.trans (congrArg List.length (back_parts xs))

theorem first?_isSome {s : Side} {xs : List α} (more : xs ≠ []) : (s.first? xs).isSome := by
  cases s with
  | front => exact List.isSome_head?.mpr more
  | back => exact List.getLast?_isSome.mpr more

theorem others_nil (s : Side) : s.others ([] : List α) = [] := by cases s <;> rfl

theorem first?_nil (s : Side) : s.first? ([] : List α) = none := by cases s <;> rfl

end Side

namespace Divides
variable {xs rest : List α} {calls : List (Call α)}

theorem untouched (xs : List α) : Divides xs [] xs where
  due call before behind := by simp at behind
  spent call before behind := by simp at behind
  parted := by simp [handed]
  counted := by simp [yields]
  answered _ call member := by simp at member

theorem first?_eq_due (divides : Divides xs calls rest) (s : Side) :
    s.first? rest = Call.due xs calls s := by
  have counted := divides.counted
  cases rest with
  | nil =>
    have few := List.length_filterMap_le Call.answer calls
    have spent : ¬calls.length < xs.length := by
      simp only [yields, List.length_nil] at counted
      omega
    unfold Call.due
    rw [if_neg spent, Side.first?_nil]
  | cons x rest =>
    have each := divides.answered (List.cons_ne_nil x rest)
    have more : calls.length < xs.length := by
      rw [Call.length_yields each, List.length_cons] at counted
      omega
    have parted := divides.parted
    unfold Call.due
    rw [if_pos more]
    cases s with
    | front =>
      have before : (handed .front calls).reverse.length = count .front calls := by
        rw [List.length_reverse, Call.length_handed each]
      rw [parted, List.append_assoc, ← before, List.getElem?_append_right (Nat.le_refl _)]
      simp [Side.first?]
    | back =>
      -- What came from the back ends the sequence; the last element ahead of it is next.
      obtain ⟨ahead, split⟩ : ∃ ahead, ahead = (handed .front calls).reverse ++ x :: rest :=
        ⟨_, rfl⟩
      have last : ahead.getLast? = (x :: rest).getLast? := by
        rw [split, List.getLast?_append_of_ne_nil _ (List.cons_ne_nil x rest)]
      have inside : ahead.length - 1 < ahead.length := by simp [split]
      rw [← split] at parted
      have position : xs.length - 1 - count .back calls = ahead.length - 1 := by
        rw [← Call.length_handed each, parted, List.length_append]
        omega
      rw [position, parted, List.getElem?_append_left inside, ← List.getLast?_eq_getElem?]
      exact last.symm

/-- A call from either side gets the first element there, and the others stay to be divided. -/
theorem step (divides : Divides xs calls rest) (s : Side) :
    Divides xs (⟨s, s.first? rest⟩ :: calls) (s.others rest) where
  due call before behind := by
    rcases List.suffix_cons_iff.mp behind with same | earlier
    · obtain ⟨rfl, rfl⟩ := List.cons.inj same
      exact divides.first?_eq_due s
    · exact divides.due call before earlier
  spent call before behind spent := by
    rcases List.suffix_cons_iff.mp behind with same | earlier
    · obtain ⟨rfl, rfl⟩ := List.cons.inj same
      have counted := divides.counted
      have none_left : rest = [] := List.length_eq_zero_iff.mp (by omega)
      rw [none_left]
      exact s.first?_nil
    · exact divides.spent call before earlier spent
  parted := by
    have parted := divides.parted
    cases s with
    | front =>
      rw [← Side.front_parts rest] at parted
      rw [Call.handed_cons, Call.handed_cons, if_pos rfl, if_neg (by decide)]
      cases found : Side.front.first? rest <;> simpa [found] using parted
    | back =>
      rw [← Side.back_parts rest] at parted
      rw [Call.handed_cons, Call.handed_cons, if_pos rfl, if_neg (by decide)]
      simpa using parted
  counted := by
    have counted := divides.counted
    have parts := s.length_parts rest
    rw [Call.yields_cons, List.length_append]
    omega
  answered more := by
    have some_left : rest ≠ [] := fun nothing => more (by rw [nothing, Side.others_nil])
    rw [List.forall_mem_cons]
    exact ⟨Side.first?_isSome some_left, divides.answered some_left⟩

end Divides

def Cursor.call (c : Cursor α) : Side → Except Error (Option α × Cursor α)
  | .front => c.next
  | .back => c.nextBack

def Drain.call (d : Drain α) : Side → Except Error (Option α) × Drain α
  | .front => d.next
  | .back => d.nextBack

theorem Cursor.call_shows {c : Cursor α} {xs : List α} (shows_xs : c.Shows xs) (s : Side) :
    ∃ c', c.call s = .ok (s.first? xs, c') ∧ c'.Shows (s.others xs) := by
  cases s with
  | front => exact next_shows shows_xs
  | back => exact nextBack_shows shows_xs

theorem Drain.call_eq {d : Drain α} {xs : List α} (holds : SlotList.Holds d.list xs) (s : Side) :
    (d.call s).1 = .ok (s.first? xs) ∧ SlotList.Holds (d.call s).2.list (s.others xs) := by
  cases s with
  | front => exact SlotList.popFront_eq holds
  | back => exact SlotList.popBack_eq holds

end TrackedValues
