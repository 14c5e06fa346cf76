import TrackedValues.Proofs.SlotList.Ends
import TrackedValues.Proofs.SlotList.Integrity
import TrackedValues.Proofs.Value.Copying
import TrackedValues.Proofs.ValueList.Refinement
import TrackedValues.Session.Report

/-!
No run of a list ever breaks its table. Whatever has been done to it, and whatever the allocator
has refused, every slot is reached by exactly one of the two chains, and no operation, cursor,
drain or copy meets a slot that it cannot use.
-/
namespace TrackedValues

theorem Cursor.glances_ok {c : Cursor Value} {xs : List Value} (shows_xs : c.Shows xs)
    (script : List Glance) : ∃ seen, c.glances script = .ok seen := by
  induction script generalizing c xs with
  | nil => exact ⟨[], rfl⟩
  | cons g more ih =>
    have further : ∃ sighting c' ys, c.glance g = .ok (sighting, c') ∧ c'.Shows ys := by
      cases g with
      | front =>
        obtain ⟨c', yielded, left⟩ := next_shows shows_xs
        exact ⟨.found xs.head?, c', _, by simp [glance, yielded, bind, Except.bind, pure,
          Except.pure], left⟩
      | back =>
        obtain ⟨c', yielded, left⟩ := nextBack_shows shows_xs
        exact ⟨.found xs.getLast?, c', _, by simp [glance, yielded, bind, Except.bind, pure,
          Except.pure], left⟩
      | size => exact ⟨.size c.remaining, c, xs, rfl, shows_xs⟩
      | rest =>
        refine ⟨.values xs, c, xs, ?_, shows_xs⟩
        simp [glance, toList_eq shows_xs, bind, Except.bind, pure, Except.pure]
      | restReversed =>
        refine ⟨.values xs.reverse, c, xs, ?_, shows_xs⟩
        simp [glance, toListBack_eq shows_xs, bind, Except.bind, pure, Except.pure]
    obtain ⟨sighting, c', ys, glanced, left⟩ := further
    obtain ⟨seen, rest⟩ := ih left
    refine ⟨sighting :: seen, ?_⟩
    simp [glances, glanced, rest, bind, Except.bind, pure, Except.pure]

theorem Drain.pulls_ok {d : Drain Value} {xs : List Value} (holds : SlotList.Holds d.list xs)
    (script : List Pull) (m : Machine) : ∃ seen, (d.pulls script m).1 = .ok seen := by
  induction script generalizing d xs m with
  | nil => exact ⟨[], rfl⟩
  | cons p more ih =>
    have further : ∃ sighting ys, (d.pull p).1 = .ok sighting ∧
        SlotList.Holds (d.pull p).2.list ys := by
      cases p with
      | front =>
        obtain ⟨taken, left⟩ := SlotList.popFront_eq holds
        exact ⟨.found xs.head?, _, congrArg (Except.map Sighting.found) taken, left⟩
      | back =>
        obtain ⟨taken, left⟩ := SlotList.popBack_eq holds
        exact ⟨.found xs.getLast?, _, congrArg (Except.map Sighting.found) taken, left⟩
      | size => exact ⟨.size d.remaining, xs, rfl, holds⟩
    obtain ⟨sighting, ys, pulled, left⟩ := further
    obtain ⟨seen, rest⟩ := ih left (sighting.release m)
    refine ⟨sighting :: seen, ?_⟩
    simp only [pulls, pulled]
    split
    · rename_i same
      rw [same] at rest
      cases rest
      rfl
    · rename_i same
      rw [same] at rest
      cases rest

namespace ValueList

/-- No use of the list meets a slot that it cannot use. -/
structure Unbroken (l : ValueList) : Prop where
  performs : ∀ m action i, (perform l m action).1 ≠ .failed (.brokenLink i)
  shows : ∀ script, ∃ seen, l.cursor.glances script = .ok seen
  yields : ∀ script m, ∃ seen, ((Drain.mk l).pulls script m).1 = .ok seen
  copies : ∀ m e, (duplicate l m).1 = .error e → ∃ cause, e = .allocation cause

theorem sequence_unbroken (storage : Except AllocationError Unit) (xs : List Value)
    (action : Action Value) (i : Nat) :
    (Sequence.perform storage xs action).1 ≠ .failed (.brokenLink i) := by
  cases action with
  | pushBack v => cases storage <;> simp [Sequence.perform]
  | pushFront v => cases storage <;> simp [Sequence.perform]
  | remove position => cases found : xs[position]? <;> simp [Sequence.perform, found]
  | overwrite position v => by_cases inside : position < xs.length <;>
      simp [Sequence.perform, inside]
  | _ => simp [Sequence.perform]

theorem unbroken_of_holds {l : ValueList} {xs : List Value} (holds : SlotList.Holds l xs) :
    Unbroken l where
  performs m action i := by
    rw [(perform_holds holds m action).1]
    exact sequence_unbroken _ xs action i
  shows script := Cursor.glances_ok (Cursor.shows_cursor holds) script
  yields script m := Drain.pulls_ok holds script m
  copies m e failed := by
    have makes := makes_duplicate l m
    generalize duplicate l m = answer at makes failed
    obtain ⟨result, m'⟩ := answer
    cases failed
    exact makes.1

/-- What any operations, on any machines, make of a list as it is built. -/
inductive Reachable : ValueList → Prop
  | fresh {l : ValueList} (fresh : Fresh l) : Reachable l
  | step {l : ValueList} (before : Reachable l) (m : Machine) (action : Action Value) :
    Reachable (perform l m action).2.1

theorem reachable_holds {l : ValueList} (reachable : Reachable l) :
    ∃ xs, SlotList.Holds l xs := by
  induction reachable with
  | fresh fresh => exact ⟨[], fresh_holds fresh⟩
  | step _ m action ih =>
    obtain ⟨xs, holds⟩ := ih
    exact ⟨_, (perform_holds holds m action).2⟩

/-- In every reachable state the table is intact, and nothing that is done with it can fail for it. -/
theorem reachable_intact {l : ValueList} (reachable : Reachable l) :
    (∃ order vacants, SlotList.WellLinked l order vacants) ∧ Unbroken l := by
  obtain ⟨xs, holds⟩ := reachable_holds reachable
  obtain ⟨nodes, vacants, linked, _⟩ := id holds
  exact ⟨⟨_, vacants, SlotList.wellLinked_of_linked linked⟩, unbroken_of_holds holds⟩

def thinned : ValueList :=
  let one := (perform (.empty .base) (.start .system) (.pushBack (.integer 1))).2.1
  let two := (perform one (.start .system) (.pushBack (.integer 2))).2.1
  (perform two (.start .system) .popFront).2.1

theorem reachable_intact_thinned : thinned.free = some 0 ∧ thinned.head = some 1 ∧
    (∃ order vacants, SlotList.WellLinked thinned order vacants) ∧ Unbroken thinned :=
  ⟨rfl, rfl, reachable_intact (.step (.step (.step (.fresh (.empty .base)) _ _) _ _) _ _)⟩

end ValueList
end TrackedValues
