import TrackedValues.Proofs.SlotList.Division
import TrackedValues.Proofs.ValueList.Integrity

/-!
Reading a list with any number of cursors, each begun anew or copied from another one. Every cursor
divides the whole sequence of the list between the calls from its two sides, as if it were alone.
-/
namespace TrackedValues
open Call (yields)
variable {α : Type}

structure Reader (α : Type) where
  cursor : Cursor α
  calls : List (Call α)

inductive Reading
  | start
  | copy (n : Nat)
  | call (n : Nat) (side : Side)
  deriving DecidableEq, Repr

namespace Reader

def call (r : Reader α) (s : Side) : Except Error (Reader α) :=
  match r.cursor.call s with
  | .ok (answer, c) => .ok ⟨c, ⟨s, answer⟩ :: r.calls⟩
  | .error e => .error e

def Follows (xs : List α) (r : Reader α) : Prop :=
  ∃ rest, Divides xs r.calls rest ∧ r.cursor.Shows rest

theorem call_follows {xs : List α} {r : Reader α} (follows : r.Follows xs) (s : Side) :
    ∃ r', r.call s = .ok r' ∧ r'.Follows xs := by
  obtain ⟨rest, divides, shows_rest⟩ := follows
  obtain ⟨c, answered, shows_others⟩ := Cursor.call_shows shows_rest s
  refine ⟨⟨c, ⟨s, s.first? rest⟩ :: r.calls⟩, ?_, s.others rest, divides.step s, shows_others⟩
  simp only [call, answered]

end Reader

namespace SlotList

def read (l : SlotList α) (readers : List (Reader α)) : Reading → Except Error (List (Reader α))
  | .start => .ok (readers ++ [⟨l.cursor, []⟩])
  | .copy n => .ok (readers ++ readers[n]?.toList)
  | .call n s =>
    match readers[n]? with
    | none => .ok readers
    | some r =>
      match r.call s with
      | .ok r => .ok (readers.set n r)
      | .error e => .error e

def readAll (l : SlotList α) : List (Reader α) → List Reading → Except Error (List (Reader α))
  | readers, [] => .ok readers
  | readers, step :: steps =>
    match l.read readers step with
    | .ok readers => l.readAll readers steps
    | .error e => .error e

theorem read_follows {l : SlotList α} {xs : List α} (holds : Holds l xs)
    {readers : List (Reader α)} (each : ∀ r ∈ readers, r.Follows xs) (step : Reading) :
    ∃ readers', l.read readers step = .ok readers' ∧ ∀ r ∈ readers', r.Follows xs := by
  cases step with
  | start =>
    refine ⟨_, rfl, fun r member => ?_⟩
    rcases List.mem_append.mp member with earlier | new
    · exact each r earlier
    · rw [List.mem_singleton.mp new]
      exact ⟨xs, .untouched xs, Cursor.shows_cursor holds⟩
  | copy n =>
    refine ⟨_, rfl, fun r member => ?_⟩
    rcases List.mem_append.mp member with earlier | copied
    · exact each r earlier
    · exact each r (List.mem_of_getElem? (Option.mem_toList.mp copied))
  | call n s =>
    cases found : readers[n]? with
    | none => exact ⟨readers, by simp only [read, found], each⟩
    | some r =>
      obtain ⟨r', answered, follows⟩ := Reader.call_follows (each r (List.mem_of_getElem? found)) s
      refine ⟨readers.set n r', by simp only [read, found, answered], fun other member => ?_⟩
      rcases List.mem_or_eq_of_mem_set member with earlier | same
      · exact each other earlier
      · exact same ▸ follows

theorem readAll_follows {l : SlotList α} {xs : List α} (holds : Holds l xs)
    {readers : List (Reader α)} (each : ∀ r ∈ readers, r.Follows xs) (steps : List Reading) :
    ∃ readers', l.readAll readers steps = .ok readers' ∧ ∀ r ∈ readers', r.Follows xs := by
  induction steps generalizing readers with
  | nil => exact ⟨readers, rfl, each⟩
  | cons step steps ih =>
    obtain ⟨next, stepped, each_next⟩ := read_follows holds each step
    obtain ⟨last, read, each_last⟩ := ih each_next
    exact ⟨last, by simp only [readAll, stepped, read], each_last⟩

end SlotList

namespace ValueList

/--
However a list that operations have made is read, no call fails. The calls of each cursor have
divided all elements of the list, its size is what they have left, and it has just that to show
from either side.
-/
theorem reachable_reads {l : ValueList} (reachable : Reachable l) (steps : List Reading) :
    l.cursor.toList = .ok l.elements ∧ l.cursor.remaining = l.elements.length ∧
    ∃ readers, l.readAll [] steps = .ok readers ∧ ∀ r ∈ readers,
      r.cursor.remaining + (yields r.calls).length = l.elements.length ∧
      ∃ rest, Divides l.elements r.calls rest ∧
        r.cursor.toList = .ok rest ∧ r.cursor.toListBack = .ok rest.reverse := by
  obtain ⟨xs, holds⟩ := reachable_holds reachable
  have elements : l.elements = xs := SlotList.elements_eq holds
  have whole := Cursor.shows_cursor holds
  rw [elements]
  refine ⟨Cursor.toList_eq whole, Cursor.remaining_eq whole, ?_⟩
  obtain ⟨readers, read, each⟩ := SlotList.readAll_follows holds (List.forall_mem_nil _) steps
  refine ⟨readers, read, fun r member => ?_⟩
  obtain ⟨rest, divides, shows_rest⟩ := each r member
  refine ⟨?_, rest, divides, Cursor.toList_eq shows_rest, Cursor.toListBack_eq shows_rest⟩
  rw [Cursor.remaining_eq shows_rest]
  exact divides.counted

def shuffled : ValueList :=
  let one := (perform thinned (.start .system) (.pushFront (.integer 3))).2.1
  (perform one (.start .system) (.pushBack (.integer 4))).2.1

/-- A cursor is copied after one call, and the two go on from different sides. -/
def forking : List Reading :=
  [.start, .call 0 .front, .copy 0, .call 0 .back, .call 1 .front, .call 0 .back, .call 0 .front]

theorem reachable_reads_shuffled :
    (shuffled.readAll [] forking).map (·.map fun r => yields r.calls) =
      .ok [[.integer 2, .integer 4, .integer 3], [.integer 2, .integer 3]] ∧
    shuffled.cursor.toList = .ok shuffled.elements ∧
    shuffled.cursor.remaining = shuffled.elements.length ∧
    ∃ readers, shuffled.readAll [] forking = .ok readers ∧ ∀ r ∈ readers,
      r.cursor.remaining + (yields r.calls).length = shuffled.elements.length ∧
      ∃ rest, Divides shuffled.elements r.calls rest ∧
        r.cursor.toList = .ok rest ∧ r.cursor.toListBack = .ok rest.reverse :=
  ⟨rfl, reachable_reads (.step (.step (.step (.step (.step (.fresh (.empty .base)) _ _) _ _) _ _)
    _ _) _ _) forking⟩

end ValueList
end TrackedValues
