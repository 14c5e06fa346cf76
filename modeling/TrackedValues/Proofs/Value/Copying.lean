import TrackedValues.Proofs.ValueList.Moves

/-!
Making values. A maker answers a value and has obtained exactly its holdings, or it fails for lack
of storage and has given back whatever it had obtained. Copies of any depth are made in this way.
-/
namespace TrackedValues

namespace Machine

def Makes (m : Machine) (answer : Except Error Value × Machine) : Prop :=
  match answer.1 with
  | .ok v => m.Moves [] answer.2 [v]
  | .error e => (∃ cause, e = .allocation cause) ∧ m.Moves [] answer.2 []

theorem moves_nothing {m m' : Machine} {v : Value} (sound : v.Sound)
    (exchanges : m.Exchanges [] m' v.holdings) : m.Moves [] m' [v] := by
  intro _
  refine ⟨by simpa using exchanges, ?_⟩
  intro x member
  rw [List.mem_singleton.mp member]
  exact sound

theorem makes_ofText {m : Machine} {answer : Except AllocationError TextBuffer × Machine}
    (made : TextBuffer.Made m answer) : m.Makes (Value.ofText answer) := by
  obtain ⟨result, m'⟩ := answer
  cases result with
  | ok b => exact moves_nothing (.text made.1) made.2
  | error e => exact ⟨⟨e, rfl⟩, fun _ => ⟨made, by simp⟩⟩

theorem moves_releaseList (l : ValueList) (m : Machine) :
    m.Moves [.list l] (ValueList.release l m) [] := by
  intro _
  refine ⟨?_, by simp⟩
  simpa [Value.holdings_list] using ValueList.exchanges_release l m

end Machine

namespace ValueList

theorem makes_withCapacity (a : Allocator) (capacity : Nat) (m : Machine) :
    m.Makes (Value.ofList (SlotList.withCapacity a capacity m)) := by
  rcases SlotList.withCapacity_cases a capacity m with ⟨l, m', built, holds, exchanges⟩ |
    ⟨cause, m', refused, exchanges⟩
  · rw [built]
    apply Machine.moves_nothing (.list holds (by simp))
    rw [Value.holdings_list]
    have perm := holdings_perm holds
    exact Machine.exchanges_perm exchanges (List.Perm.refl _) perm.symm
  · rw [refused]
    exact ⟨⟨cause, rfl⟩, fun _ => ⟨exchanges, by simp⟩⟩

/-- A list takes one copy after the other; when one is missing, it is released with the others. -/
theorem makes_pushCopies {copyings : List Copying}
    (each : ∀ copying ∈ copyings, ∀ m : Machine, m.Makes (copying m)) {start m : Machine} {copy : ValueList}
    (made : start.Moves [] m [.list copy]) :
    start.Makes (Value.ofList (pushCopies copy copyings m)) := by
  -- The induction keeps that the list with the copies made so far is all that has been obtained.
  induction copyings generalizing copy m with
  | nil => exact made
  | cons copying more ih =>
    simp only [List.mem_cons, forall_eq_or_imp] at each
    have element := each.1 m
    simp only [pushCopies]
    generalize copying m = answer at element
    obtain ⟨result, m'⟩ := answer
    cases result with
    | error e =>
      obtain ⟨cause, left⟩ := element
      have beside := Machine.moves_beside left [.list copy]
      exact ⟨cause, Machine.moves_trans made
        (Machine.moves_trans beside (Machine.moves_releaseList copy m'))⟩
    | ok v =>
      have beside := Machine.moves_beside element [.list copy]
      have both := Machine.moves_congr beside (List.Perm.refl _) (List.Perm.swap _ _ [])
      have pushed := Machine.moves_trans made (Machine.moves_trans both (moves_pushBack copy v m'))
      cases answer : (pushBack copy v m').result with
      | ok _ =>
        simp only [answer]
        exact ih each.2 pushed
      | error e =>
        simp only [answer]
        obtain ⟨xs, holds, _⟩ := (Value.sound_list copy).mp ((made (by simp)).2 _ (by simp))
        have cause : ∃ cause, e = .allocation cause := by
          rcases pushed_back holds v m' with ⟨granted, _⟩ | ⟨⟨cause, refused⟩, _⟩
          · simp [pushBack, keepOrRelease, granted] at answer
          · simp only [pushBack, keepOrRelease, refused, Except.error.injEq] at answer
            exact ⟨cause, answer.symm⟩
        exact ⟨cause, Machine.moves_trans pushed (Machine.moves_releaseList _ _)⟩

theorem makes_copyWith {l : SlotList Copying}
    (each : ∀ copying ∈ l.elements, ∀ m : Machine, m.Makes (copying m)) (m : Machine) :
    m.Makes (Value.ofList (l.copyWith m)) := by
  have made := makes_withCapacity l.allocator l.len m
  unfold SlotList.copyWith
  split
  · rename_i built
    rw [built] at made
    exact made
  · rename_i built
    rw [built] at made
    exact makes_pushCopies each made

end ValueList

theorem SlotList.mem_stored {α : Type} {l : SlotList α} {x : α} (member : x ∈ l.elements) :
    x ∈ l.stored := by
  obtain ⟨i, _, found⟩ := List.mem_filterMap.mp member
  obtain ⟨s, here, value⟩ := Option.bind_eq_some_iff.mp found
  exact List.mem_filterMap.mpr ⟨s, Array.mem_toList_iff.mpr (Array.mem_of_getElem? here), value⟩

theorem Value.makes_duplicate (v : Value) (m : Machine) : m.Makes (v.duplicate m) := by
  induction v using Value.induct_stored generalizing m with
  | integer n => exact Machine.moves_nothing (.integer n) (m.exchanges_refl _)
  | real x => exact Machine.moves_nothing (.real x) (m.exchanges_refl _)
  | text b => exact Machine.makes_ofText (TextBuffer.made_duplicate b m)
  | boolean b => exact Machine.moves_nothing (.boolean b) (m.exchanges_refl _)
  | list l each =>
    have folded : (Value.list l).duplicate = fun m => ofList ((l.map duplicate).copyWith m) :=
      fold_list copying l
    rw [folded]
    apply ValueList.makes_copyWith
    intro copying member
    rw [SlotList.elements_map] at member
    obtain ⟨v, element, rfl⟩ := List.mem_map.mp member
    exact each v (SlotList.mem_stored element)

theorem ValueList.makes_duplicate (l : ValueList) (m : Machine) :
    m.Makes (Value.ofList (l.duplicate m)) := by
  have made := Value.makes_duplicate (.list l) m
  unfold Value.duplicate at made
  rw [Value.fold_list] at made
  exact made

end TrackedValues
