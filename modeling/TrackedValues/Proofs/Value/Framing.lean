import TrackedValues.Proofs.Value.Editing

/-!
What an edit through a path leaves alone. Every hop goes through the slot table of a list, which
keeps its links when the element in one of its slots changes. So an edit changes the value that it
reaches, and nothing beside it; an edit that reaches nothing changes nothing.
-/
namespace TrackedValues

namespace SlotList
variable {α : Type} {l : SlotList α}

/--
The same table, with the same allocator, capacity, length, links and free chain, in which the
elements are the same at all positions but one.
-/
structure Refilled (l l' : SlotList α) (position : Nat) : Prop where
  skeleton : l'.map (fun _ => ()) = l.map (fun _ => ())
  elements : ∃ x, l'.elements = l.elements.set position x

theorem skeleton_setValue (l : SlotList α) (i : Nat) (value : α) :
    (l.setValue i value).map (fun _ => ()) = l.map (fun _ => ()) := by
  have slots : (l.slots.modify i (Slot.withValue value)).map (Slot.map fun _ => ()) =
      l.slots.map (Slot.map fun _ => ()) := by
    apply Array.ext_getElem?
    intro j
    simp only [Array.getElem?_map, Array.getElem?_modify]
    split
    · rcases l.slots[j]? with - | s
      · rfl
      · cases s <;> rfl
    · rfl
  simp only [map, setValue, slots]

end SlotList

namespace Value
open SlotList (Holds Refilled)
variable {β : Type} {edit : Edit β} {m : Machine} {v : Value}

theorem find_machine (v : Value) (path : List Nat) (m m' : Machine) :
    (v.find path m).1 = (v.find path m').1 := by
  induction path generalizing v with
  | nil => rfl
  | cons position path ih =>
    cases v with
    | list l =>
      simp only [find, asList_list]
      split
      · rfl
      · rfl
      · exact ih _
    | _ => rfl

theorem editAt_other (other : v.shape ≠ .list) (edit : Edit β) (position : Nat)
    (path : List Nat) (m : Machine) :
    editAt edit (position :: path) v m =
      ⟨.error (.typeMismatch .list v.shape), v, m.emit (.mismatch .list v.shape)⟩ := by
  cases v with
  | list l => exact absurd rfl other
  | _ => rfl

theorem find_cons {l : ValueList} {xs : List Value} (holds : Holds l xs) (position : Nat)
    (path : List Nat) (m : Machine) :
    (list l).find (position :: path) m =
      match xs[position]? with
      | some x => x.find path m
      | none => (.ok none, m) := by
  rw [find]
  simp only [asList_list, SlotList.get_eq holds]
  cases xs[position]? <;> rfl

/--
A hop from a value to the element at a position. Putting the element back gives the value again;
putting another element there changes what the position leads to, and no other position.
-/
structure Hop (v : Value) (position : Nat) (element : Value) (put : Value → Value) : Prop where
  sound : element.Sound
  down : ∀ path m, v.find (position :: path) m = element.find path m
  edits : ∀ {β : Type} (edit : Edit β) path m,
    editAt edit (position :: path) v m = (editAt edit path element m).within put
  put_same : put element = v
  put_down : ∀ x path m, (put x).find (position :: path) m = x.find path m
  put_beside : ∀ x k path m, k ≠ position → (put x).find (k :: path) m = v.find (k :: path) m

def Stops (v : Value) (position : Nat) : Prop :=
  v.shape ≠ .list ∨ ∃ l, v = list l ∧ l.len ≤ position

theorem hop_or_stops (sound : v.Sound) (position : Nat) :
    (∃ element put, Hop v position element put) ∨ v.Stops position := by
  by_cases shape : v.shape = .list
  · obtain ⟨l, rfl⟩ : ∃ l, v = list l := by
      cases v with
      | list l => exact ⟨l, rfl⟩
      | _ => cases shape
    obtain ⟨xs, holds, each⟩ := (sound_list l).mp sound
    by_cases inside : position < xs.length
    · obtain ⟨i, same, after, edits⟩ := editAt_inside holds inside
      refine .inl ⟨xs[position], fun x => list (l.setValue i x), ?_⟩
      constructor
      · exact each _ (List.getElem_mem inside)
      · intro path m
        rw [find_cons holds, List.getElem?_eq_getElem inside]
      · exact edits
      · rw [same]
      · intro x path m
        rw [find_cons (after x), List.getElem?_set_self inside]
      · intro x k path m other
        rw [find_cons (after x), find_cons holds, List.getElem?_set_ne (Ne.symm other)]
    · refine .inr (.inr ⟨l, rfl, ?_⟩)
      rw [SlotList.len_eq_length holds]
      exact Nat.not_lt.mp inside
  · exact .inr (.inl shape)

theorem editAt_stops {position : Nat} (stops : v.Stops position) (edit : Edit β)
    (path : List Nat) (m : Machine) :
    (editAt edit (position :: path) v m).target = v := by
  rcases stops with other | ⟨l, rfl, behind⟩
  · rw [editAt_other other]
  · simp only [editAt, SlotList.slotAt, if_pos behind]

theorem find_stops {position : Nat} (stops : v.Stops position) (path : List Nat) (m : Machine)
    (x : Value) : (v.find (position :: path) m).1 ≠ .ok (some x) := by
  intro found
  rcases stops with other | ⟨l, rfl, behind⟩
  · cases v with
    | list l => exact other rfl
    | _ => cases found
  · simp only [find, asList_list, SlotList.get, SlotList.slotAt, if_pos behind,
      SlotList.valueOf] at found
    cases found

theorem find_editAt_beside (sound : v.Sound) {path q : List Nat} (above : ¬ q <+: path)
    (below : ¬ path <+: q) (m' : Machine) :
    (v.editAt edit path m).target.find q m' = v.find q m' := by
  induction path generalizing v q with
  | nil => exact absurd List.nil_prefix below
  | cons position path ih =>
    rcases q with - | ⟨k, q⟩
    · exact absurd List.nil_prefix above
    rcases hop_or_stops sound position with ⟨element, put, hop⟩ | stops
    · rw [hop.edits, Outcome.within]
      by_cases same : k = position
      · subst same
        have above : ¬ q <+: path := fun h => above (List.cons_prefix_cons.mpr ⟨rfl, h⟩)
        have below : ¬ path <+: q := fun h => below (List.cons_prefix_cons.mpr ⟨rfl, h⟩)
        rw [hop.put_down, hop.down]
        exact ih hop.sound above below
      · exact hop.put_beside _ k q m' same
    · rw [editAt_stops stops]

theorem refilled_editAt (sound : v.Sound) (edit : Edit β) {before : List Nat} (position : Nat)
    (later : List Nat) {l : ValueList} (on : (v.find before m).1 = .ok (some (list l))) :
    ∃ l', ((v.editAt edit (before ++ position :: later) m).target.find before m).1 =
      .ok (some (list l')) ∧ Refilled l l' position := by
  induction before generalizing v with
  | nil =>
    obtain rfl := Option.some.inj (Except.ok.inj on)
    obtain ⟨xs, holds, -⟩ := (sound_list l).mp sound
    by_cases inside : position < xs.length
    · obtain ⟨i, -, after, edits⟩ := editAt_inside holds inside
      rw [List.nil_append, edits]
      refine ⟨_, rfl, SlotList.skeleton_setValue l i _,
        (editAt edit later xs[position] m).target, ?_⟩
      rw [SlotList.elements_eq (after _), SlotList.elements_eq holds]
    · have outside := Nat.not_lt.mp inside
      rw [List.nil_append, editAt_outside holds outside]
      refine ⟨l, rfl, rfl, boolean false, ?_⟩
      rw [SlotList.elements_eq holds, List.set_eq_of_length_le outside]
  | cons k before ih =>
    rcases hop_or_stops sound k with ⟨element, put, hop⟩ | stops
    · rw [hop.down] at on
      rw [List.cons_append, hop.edits, Outcome.within, hop.put_down]
      exact ih hop.sound on
    · exact absurd on (find_stops stops before m _)

theorem editAt_reached (sound : v.Sound) (edit : Edit β) {path : List Nat} {x : Value}
    (reached : (v.find path m).1 = .ok (some x)) :
    (v.editAt edit path m).result = .ok (some (edit x m).1) ∧
      (v.editAt edit path m).machine = (edit x m).2.2 ∧
      ∀ m', ((v.editAt edit path m).target.find path m').1 = .ok (some (edit x m).2.1) := by
  induction path generalizing v with
  | nil =>
    obtain rfl := Option.some.inj (Except.ok.inj reached)
    exact ⟨rfl, rfl, fun _ => rfl⟩
  | cons position path ih =>
    rcases hop_or_stops sound position with ⟨element, put, hop⟩ | stops
    · rw [hop.down] at reached
      obtain ⟨result, machine, target⟩ := ih hop.sound reached
      rw [hop.edits]
      refine ⟨result, machine, fun m' => ?_⟩
      rw [Outcome.within, hop.put_down]
      exact target m'
    · exact absurd reached (find_stops stops path m x)

theorem editAt_unchanged (sound : v.Sound) {before later : List Nat} {x : Value}
    (on : (v.find before m).1 = .ok (some x)) {answer : Except Error (Option β)} {m' : Machine}
    (unchanged : editAt edit later x m = ⟨answer, x, m'⟩) :
    v.editAt edit (before ++ later) m = ⟨answer, v, m'⟩ := by
  induction before generalizing v with
  | nil =>
    obtain rfl := Option.some.inj (Except.ok.inj on)
    exact unchanged
  | cons k before ih =>
    rcases hop_or_stops sound k with ⟨element, put, hop⟩ | stops
    · rw [hop.down] at on
      rw [List.cons_append, hop.edits, ih hop.sound on, Outcome.within, hop.put_same]
    · exact absurd on (find_stops stops before m x)

theorem reaches_or_stops (sound : v.Sound) (path : List Nat) (m : Machine) :
    (∃ x, (v.find path m).1 = .ok (some x)) ∨
      ∃ before position later x, path = before ++ position :: later ∧
        (v.find before m).1 = .ok (some x) ∧ x.Stops position := by
  induction path generalizing v with
  | nil => exact .inl ⟨v, rfl⟩
  | cons position path ih =>
    rcases hop_or_stops sound position with ⟨element, put, hop⟩ | stops
    · rcases ih hop.sound with ⟨x, reached⟩ | ⟨before, k, later, x, rfl, on, stops⟩
      · exact .inl ⟨x, by rwa [hop.down]⟩
      · exact .inr ⟨position :: before, k, later, x, rfl, by rwa [hop.down], stops⟩
    · exact .inr ⟨[], position, path, v, rfl, rfl, stops⟩

end Value
end TrackedValues
