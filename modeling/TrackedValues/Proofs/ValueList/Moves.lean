import Mathlib.Data.List.Perm.Basic
import TrackedValues.Proofs.Value.Moves

/-!
The operations of a list as moves of values. Pushes take their element in or release it, removals
hand an element out, and copies come with storage of their own or leave nothing behind.
-/
namespace TrackedValues.ValueList
open SlotList (Holds)

/-- A push has put the element into the sequence, or it has left the list and all trackers alone. -/
def Pushed (element : Value) (l : ValueList) (xs : List Value) (m : Machine)
    (o : Outcome Error ValueList Unit) : Prop :=
  (o.result = .ok () ∧ ∃ ys, Holds o.target ys ∧ ys.Perm (xs ++ [element])) ∨
    (∃ cause, o.result = .error (.allocation cause)) ∧ o.target = l ∧
      ∀ t, o.machine.heap.tracker t = m.heap.tracker t

theorem pushed_refused {l : ValueList} {m : Machine} {cause : AllocationError}
    (refused : l.storage m = .error cause) (element : Value) (xs : List Value)
    (link : ValueList → ValueList) (neighbour : Option Nat) :
    Pushed element l xs m (SlotList.pushWith link neighbour l m) := by
  obtain ⟨m', same, failed⟩ := SlotList.pushWith_refused refused link neighbour
  rw [failed]
  exact Or.inr ⟨⟨cause, rfl⟩, rfl, same⟩

theorem pushed_back {l : ValueList} {xs : List Value} (holds : Holds l xs) (element : Value)
    (m : Machine) : Pushed element l xs m (SlotList.pushBack l element m) := by
  cases word : l.storage m with
  | ok _ =>
    obtain ⟨granted, after⟩ := SlotList.pushBack_granted holds word element
    exact Or.inl ⟨granted, _, after, List.Perm.refl _⟩
  | error cause => exact pushed_refused word element xs _ _

theorem pushed_front {l : ValueList} {xs : List Value} (holds : Holds l xs) (element : Value)
    (m : Machine) : Pushed element l xs m (SlotList.pushFront l element m) := by
  cases word : l.storage m with
  | ok _ =>
    obtain ⟨granted, after⟩ := SlotList.pushFront_granted holds word element
    exact Or.inl ⟨granted, _, after, (List.perm_append_singleton element xs).symm⟩
  | error cause => exact pushed_refused word element xs _ _

theorem moves_keepOrRelease {l : ValueList} {xs : List Value} (holds : Holds l xs)
    {element : Value} {m : Machine} {o : Outcome Error ValueList Unit}
    (table : m.Exchanges l.tableHoldings o.machine o.target.tableHoldings)
    (pushed : Pushed element l xs m o) :
    m.Moves [.list l, element] (keepOrRelease element o).machine
      [.list (keepOrRelease element o).target] := by
  rcases pushed with ⟨granted, ys, holds', perm⟩ | ⟨⟨cause, refused⟩, same, _⟩
  · simp only [keepOrRelease, granted]
    refine Machine.moves_relist holds holds' table (o.machine.moves_perm ?_)
    simpa using perm.symm
  · simp only [keepOrRelease, refused]
    rw [same] at table ⊢
    refine Machine.moves_relist holds holds table ?_
    have released := Machine.moves_beside (o.machine.moves_release element) xs
    exact Machine.moves_congr released List.perm_append_comm (by simp)

theorem moves_pushBack (l : ValueList) (element : Value) (m : Machine) :
    m.Moves [.list l, element] (pushBack l element m).machine
      [.list (pushBack l element m).target] := by
  intro sound
  obtain ⟨xs, holds, _⟩ := (Value.sound_list l).mp (sound _ List.mem_cons_self)
  refine moves_keepOrRelease holds ?_ (pushed_back holds element m) sound
  exact SlotList.exchanges_pushWith (fun r => r.tableHoldings_linkBack element) l.tail l m

theorem moves_pushFront (l : ValueList) (element : Value) (m : Machine) :
    m.Moves [.list l, element] (pushFront l element m).machine
      [.list (pushFront l element m).target] := by
  intro sound
  obtain ⟨xs, holds, _⟩ := (Value.sound_list l).mp (sound _ List.mem_cons_self)
  refine moves_keepOrRelease holds ?_ (pushed_front holds element m) sound
  exact SlotList.exchanges_pushWith (fun r => r.tableHoldings_linkFront element) l.head l m

def handedOut : Except Error (Option Value) → List Value
  | .ok (some v) => [v]
  | _ => []

theorem moves_handOut {l l' : ValueList} {xs xs' : List Value} {m m' : Machine}
    {handed : List Value} (holds : Holds l xs) (after : Holds l' xs')
    (table : l'.tableHoldings = l.tableHoldings) (same : m'.heap = m.heap)
    (perm : xs.Perm (xs' ++ handed)) : m.Moves [.list l] m' (.list l' :: handed) := by
  have kept := Machine.exchanges_of_heap same l.tableHoldings
  rw [← List.append_nil xs] at perm
  apply Machine.moves_relist holds after _ (m'.moves_perm perm)
  rw [table]
  exact kept

theorem moves_popFront (l : ValueList) (m : Machine) :
    m.Moves [.list l] m (.list l.popFront.2 :: handedOut l.popFront.1) := by
  intro sound
  obtain ⟨xs, holds, _⟩ := (Value.sound_list l).mp (sound _ List.mem_cons_self)
  obtain ⟨taken, after⟩ := SlotList.popFront_eq holds
  rw [taken]
  apply moves_handOut holds after (SlotList.tableHoldings_popAt l l.head) rfl _ sound
  cases xs with
  | nil => exact List.Perm.refl _
  | cons x xs => exact (List.perm_append_singleton x xs).symm

theorem moves_popBack (l : ValueList) (m : Machine) :
    m.Moves [.list l] m (.list l.popBack.2 :: handedOut l.popBack.1) := by
  intro sound
  obtain ⟨xs, holds, _⟩ := (Value.sound_list l).mp (sound _ List.mem_cons_self)
  obtain ⟨taken, after⟩ := SlotList.popBack_eq holds
  rw [taken]
  apply moves_handOut holds after (SlotList.tableHoldings_popAt l l.tail) rfl _ sound
  rcases xs.eq_nil_or_concat with rfl | ⟨init, x, rfl⟩
  · exact List.Perm.refl _
  · simp [handedOut]

theorem remove_heap (l : ValueList) (position : Nat) (m : Machine) :
    (SlotList.remove l position m).machine.heap = m.heap := by
  unfold SlotList.remove
  split
  · rfl
  · rfl
  · dsimp only
    split <;> rfl

theorem moves_remove (l : ValueList) (position : Nat) (m : Machine) :
    m.Moves [.list l] (SlotList.remove l position m).machine
      (.list (SlotList.remove l position m).target ::
        handedOut ((SlotList.remove l position m).result.map some)) := by
  intro sound
  obtain ⟨xs, holds, _⟩ := (Value.sound_list l).mp (sound _ List.mem_cons_self)
  by_cases inside : position < xs.length
  · obtain ⟨removed, after⟩ := SlotList.remove_inside holds inside m
    rw [removed]
    apply moves_handOut holds after (SlotList.tableHoldings_remove l position m)
      (remove_heap l position m) _ sound
    have first := (List.getElem_cons_eraseIdx_perm inside).symm
    exact first.trans (List.perm_append_singleton _ _).symm
  · rw [SlotList.remove_outside holds (Nat.not_lt.mp inside) m]
    exact m.moves_refl _ sound

theorem moves_clear (l : ValueList) (m : Machine) :
    m.Moves [.list l] (clear l m).machine [.list (clear l m).target] := by
  intro sound
  obtain ⟨xs, holds, _⟩ := (Value.sound_list l).mp (sound _ List.mem_cons_self)
  have table : m.Exchanges l.tableHoldings m (SlotList.clear l).tableHoldings := m.exchanges_refl _
  refine Machine.moves_relist holds (SlotList.holds_clear l) table ?_ sound
  intro _
  refine ⟨?_, by simp⟩
  have released := m.exchanges_giveBack (l.stored.flatMap Value.holdings)
  rw [← releaseElements_eq_giveBack] at released
  have stored := (SlotList.stored_perm holds).symm.flatMap_right Value.holdings
  simpa [clear] using Machine.exchanges_perm released stored (List.Perm.refl _)

end TrackedValues.ValueList
