import TrackedValues.Proofs.Value.Copying
import TrackedValues.Value.Editing

/-!
The operations of a value as moves of values, directly and through a path. An edit that may take
other values in and hand others out does the same from any depth of a tree.
-/
namespace TrackedValues.Value
open SlotList (Holds)
variable {α β ε : Type}

theorem moves_refused (v : Value) (expected : Shape) (m : Machine) :
    m.Moves [v] (v.refused expected m : Outcome Error Value α).machine [v] :=
  Machine.moves_of_heap rfl [v]

theorem moves_onText (v : Value) (m : Machine)
    {work : TextBuffer → Machine → Outcome ε TextBuffer α}
    (keeps : ∀ b : TextBuffer, b.Keeps m (work b m)) :
    m.Moves [v] (v.onText m work).machine [(v.onText m work).target] := by
  cases v with
  | text b =>
    intro sound
    have sound : b.Sound := by
      cases sound (.text b) List.mem_cons_self with
      | text sound => exact sound
    constructor
    · simp only [List.flatMap_cons, List.flatMap_nil, List.append_nil]
      exact (keeps b).exchanges
    · intro x member
      rw [List.mem_singleton.mp member]
      exact .text ((keeps b).sound sound)
  | _ => exact moves_refused _ .string m

theorem moves_refusedPush (v element : Value) (m : Machine) :
    m.Moves [v, element] (element.release (v.refused .list m : Outcome Error Value Unit).machine)
      [v] := by
  have reported := Machine.moves_beside (moves_refused (α := Unit) v .list m) [element]
  have released := Machine.moves_beside
    (Machine.moves_release element (v.refused .list m : Outcome Error Value Unit).machine) [v]
  have swapped := List.Perm.swap element v []
  exact Machine.moves_trans reported (Machine.moves_congr released swapped (List.Perm.refl _))

theorem moves_pushWith {push : ValueList → Value → Machine → Outcome Error ValueList Unit}
    {element : Value} {m : Machine}
    (moves : ∀ l, m.Moves [.list l, element] (push l element m).machine
      [.list (push l element m).target]) (v : Value) :
    m.Moves [v, element] (pushWith push v element m).machine
      [(pushWith push v element m).target] := by
  cases v with
  | list l => exact moves l
  | _ => exact moves_refusedPush _ element m

theorem moves_pushBack (v element : Value) (m : Machine) :
    m.Moves [v, element] (v.pushBack element m).machine [(v.pushBack element m).target] :=
  moves_pushWith (fun l => ValueList.moves_pushBack l element m) v

theorem moves_pushFront (v element : Value) (m : Machine) :
    m.Moves [v, element] (v.pushFront element m).machine [(v.pushFront element m).target] :=
  moves_pushWith (fun l => ValueList.moves_pushFront l element m) v

theorem moves_overwrite (v replacement : Value) (m : Machine) :
    m.Moves [v, replacement] (v.overwrite replacement m).machine
      [(v.overwrite replacement m).target] :=
  Machine.moves_beside (Machine.moves_release v m) [replacement]

theorem moves_onList {work : ValueList → Machine → Outcome Error ValueList α}
    {m : Machine} (out : Except Error α → List Value) (nothing : ∀ e, out (.error e) = [])
    (moves : ∀ l, m.Moves [.list l] (work l m).machine
      (.list (work l m).target :: out (work l m).result)) (v : Value) :
    m.Moves [v] (v.onList m work).machine
      ((v.onList m work).target :: out (v.onList m work).result) := by
  cases v with
  | list l => exact moves l
  | _ =>
    simp only [onList, refused, mismatch, nothing]
    exact moves_refused (α := α) _ .list m

theorem moves_popFront (v : Value) (m : Machine) :
    m.Moves [v] (v.popFront m).machine
      ((v.popFront m).target :: ValueList.handedOut (v.popFront m).result) :=
  moves_onList ValueList.handedOut (fun _ => rfl) (fun l => ValueList.moves_popFront l m) v

theorem moves_popBack (v : Value) (m : Machine) :
    m.Moves [v] (v.popBack m).machine
      ((v.popBack m).target :: ValueList.handedOut (v.popBack m).result) :=
  moves_onList ValueList.handedOut (fun _ => rfl) (fun l => ValueList.moves_popBack l m) v

theorem moves_remove (v : Value) (position : Nat) (m : Machine) :
    m.Moves [v] (v.remove position m).machine
      ((v.remove position m).target ::
        ValueList.handedOut ((v.remove position m).result.map some)) :=
  moves_onList (fun r => ValueList.handedOut (r.map some)) (fun _ => rfl)
    (fun l => ValueList.moves_remove l position m) v

theorem moves_clear (v : Value) (m : Machine) :
    m.Moves [v] (v.onList m ValueList.clear).machine [(v.onList m ValueList.clear).target] :=
  moves_onList (fun _ => []) (fun _ => rfl) (fun l => ValueList.moves_clear l m) v

theorem find_heap (v : Value) (path : List Nat) (m : Machine) :
    (v.find path m).2.heap = m.heap := by
  induction path generalizing v m with
  | nil => rfl
  | cons position path ih =>
    unfold find
    cases v with
    | list l =>
      simp only [asList_list]
      split
      · rfl
      · rfl
      · exact ih _ m
    | _ => rfl

theorem editAt_inside {l : ValueList} {xs : List Value} (holds : Holds l xs) {position : Nat}
    (inside : position < xs.length) :
    ∃ i, l.setValue i xs[position] = l ∧
      (∀ x, Holds (l.setValue i x) (xs.set position x)) ∧
      ∀ {β : Type} (edit : Edit β) path m, editAt edit (position :: path) (list l) m =
        (editAt edit path xs[position] m).within fun edited => list (l.setValue i edited) := by
  obtain ⟨i, found, here, after⟩ := SlotList.setValue_inside holds inside
  refine ⟨i, SlotList.setValue_self here, after, fun edit path m => ?_⟩
  simp only [editAt, found, here, Outcome.within, SlotList.setValue_setValue]

theorem editAt_outside {l : ValueList} {xs : List Value} (holds : Holds l xs) {position : Nat}
    (outside : xs.length ≤ position) (edit : Edit β) (path : List Nat) (m : Machine) :
    editAt edit (position :: path) (list l) m = ⟨.ok none, list l, m⟩ := by
  simp only [editAt, SlotList.slotAt_outside holds outside]

/-- The edit takes the given values in besides the edited one, and hands out what its answer says. -/
def Edit.Moves (edit : Edit β) (given : List Value) (taken : β → List Value) : Prop :=
  ∀ v m, Machine.Moves m (v :: given) (edit v m).2.2 ((edit v m).2.1 :: taken (edit v m).1)

/-- What is owned besides the edited value: if its path leads nowhere, still what was given. -/
def besides (given : List Value) (taken : β → List Value) :
    Except Error (Option β) → List Value
  | .ok (some answer) => taken answer
  | _ => given

theorem moves_editAt {edit : Edit β} {given : List Value} {taken : β → List Value}
    (moves : edit.Moves given taken) (path : List Nat) (v : Value) (m : Machine) :
    m.Moves (v :: given) (editAt edit path v m).machine
      ((editAt edit path v m).target :: besides given taken (editAt edit path v m).result) := by
  induction path generalizing v m with
  | nil => exact moves v m
  | cons position path ih =>
    cases v with
    | list l =>
      intro sound
      obtain ⟨xs, holds, _⟩ := (sound_list l).mp (sound _ List.mem_cons_self)
      by_cases inside : position < xs.length
      -- The element at the position is edited beside the others, which stay where they are.
      · obtain ⟨i, -, after, edits⟩ := editAt_inside holds inside
        have edited := Machine.moves_beside (ih xs[position] m) (xs.eraseIdx position)
        simp only [edits, Outcome.within]
        refine Machine.moves_relist holds (after _) (m.exchanges_refl _) ?_ sound
        refine Machine.moves_congr edited ?_ ?_
        · have first := (List.getElem_cons_eraseIdx_perm inside).symm
          exact (first.append_right given).trans (List.perm_append_comm.cons _)
        · have first := List.set_perm_cons_eraseIdx inside
            (editAt edit path xs[position] m).target
          exact (List.perm_append_comm.cons _).trans (first.symm.append_right _)
      · rw [editAt_outside holds (Nat.not_lt.mp inside)]
        exact m.moves_refl _ sound
    | _ => exact Machine.moves_beside (moves_refused (α := Option β) _ .list m) given

end TrackedValues.Value
