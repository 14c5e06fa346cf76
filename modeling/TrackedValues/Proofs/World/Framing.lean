import TrackedValues.Proofs.Value.Framing
import TrackedValues.Proofs.World.Atomicity

/-!
Edits of owned values through a path. An edit touches the value at the end of its path and, of the
lists on the way, one slot each; all else that a world owns is as before. A path that leads
nowhere is answered, and the world stays as it is.
-/
namespace TrackedValues.World
variable {β : Type}

def look (w : World) (n : Nat) (path : List Nat) : Option (Except Error (Option Value)) :=
  w.values[n]?.map fun v => (v.find path w.machine).1

/--
What an edit of the value at the end of a path comes to. What stands beside the path is as it was,
and a list on the way is the same table with another element at one position. If the path meets a
value that is no list, or goes behind the end of one, the answer says so and nothing has changed.
-/
structure EditsOnly (w : World) (n : Nat) (path : List Nat) (edit : Value.Edit β)
    (done : Option (Except Error (Option β)) × World) : Prop where
  drains : done.2.drains = w.drains
  beside : ∀ k q, k ≠ n ∨ ¬ q <+: path ∧ ¬ path <+: q → done.2.look k q = w.look k q
  onTheWay : ∀ before position later l, path = before ++ position :: later →
    w.look n before = some (.ok (some (.list l))) →
      ∃ l', done.2.look n before = some (.ok (some (.list l'))) ∧
        SlotList.Refilled l l' position
  reached : ∀ x, w.look n path = some (.ok (some x)) →
    done.1 = some (.ok (some (edit x w.machine).1)) ∧
      done.2.machine = (edit x w.machine).2.2 ∧
      done.2.look n path = some (.ok (some (edit x w.machine).2.1))
  mismatch : ∀ before position later x, path = before ++ position :: later →
    w.look n before = some (.ok (some x)) → x.shape ≠ .list →
      done = (some (.error (.typeMismatch .list x.shape)),
        { w with machine := w.machine.emit (.mismatch .list x.shape) })
  behind : ∀ before position later l, path = before ++ position :: later →
    w.look n before = some (.ok (some (.list l))) → l.len ≤ position →
      done = (some (.ok none), w)
  exhaustive : n < w.values.length →
    (∃ x, w.look n path = some (.ok (some x))) ∨
      ∃ before position later x, path = before ++ position :: later ∧
        w.look n before = some (.ok (some x)) ∧ x.Stops position

theorem look_some {w : World} {n : Nat} {v : Value} (found : w.values[n]? = some v)
    (path : List Nat) : w.look n path = some (v.find path w.machine).1 := by
  rw [look, found, Option.map_some]

theorem look_set {w : World} {n : Nat} {v : Value} (found : w.values[n]? = some v) (m : Machine)
    (x : Value) (k : Nat) (path : List Nat) :
    ({ w with machine := m, values := w.values.set n x } : World).look k path =
      if k = n then some (x.find path w.machine).1 else w.look k path := by
  obtain ⟨inside, -⟩ := List.getElem?_eq_some_iff.mp found
  split
  · rename_i same
    subst same
    rw [look, List.getElem?_set_self inside, Option.map_some, Value.find_machine]
  · rename_i other
    rw [look, look, List.getElem?_set_ne (Ne.symm other)]
    simp only [Value.find_machine _ path m w.machine]

theorem editsOnly_nobody {w : World} {n : Nat} (nobody : w.values[n]? = none) (path : List Nat)
    (edit : Value.Edit β) : w.EditsOnly n path edit (none, w) := by
  have nothing (q : List Nat) : w.look n q = none := by rw [look, nobody, Option.map_none]
  constructor
  · rfl
  · exact fun _ _ _ => rfl
  · intro before position later l _ on
    exact nomatch (nothing before).symm.trans on
  · intro x on
    exact nomatch (nothing path).symm.trans on
  · intro before position later x _ on
    exact nomatch (nothing before).symm.trans on
  · intro before position later l _ on
    exact nomatch (nothing before).symm.trans on
  · intro inside
    exact absurd (List.getElem?_eq_none_iff.mp nobody) (Nat.not_le.mpr inside)

theorem editsOnly_sound {w : World} {n : Nat} {v : Value} (found : w.values[n]? = some v)
    (sound : v.Sound) (path : List Nat) (edit : Value.Edit β) :
    w.EditsOnly n path edit (w.editing n path edit) := by
  have same : w.values.set n v = w.values := by
    obtain ⟨inside, rfl⟩ := List.getElem?_eq_some_iff.mp found
    exact List.set_getElem_self inside
  unfold editing
  simp only [found]
  constructor
  · rfl
  · intro k q apart
    rw [look_set found]
    split
    · rename_i here
      subst here
      obtain ⟨above, below⟩ := apart.resolve_left fun other => other rfl
      rw [look_some found, Value.find_editAt_beside sound above below]
    · rfl
  · intro before position later l split on
    subst split
    rw [look_some found, Option.some.injEq] at on
    obtain ⟨l', after, refilled⟩ := Value.refilled_editAt sound edit position later on
    refine ⟨l', ?_, refilled⟩
    rw [look_set found, if_pos rfl, after]
  · intro x on
    rw [look_some found, Option.some.injEq] at on
    obtain ⟨result, machine, target⟩ := Value.editAt_reached sound edit on
    refine ⟨by rw [result], machine, ?_⟩
    rw [look_set found, if_pos rfl, target]
  · intro before position later x split on other
    subst split
    rw [look_some found, Option.some.injEq] at on
    rw [Value.editAt_unchanged sound on (Value.editAt_other other edit position later _)]
    simp only [same]
  · intro before position later l split on behind
    subst split
    rw [look_some found, Option.some.injEq] at on
    have nowhere : Value.editAt edit (position :: later) (.list l) w.machine =
        ⟨.ok none, .list l, w.machine⟩ := by
      simp only [Value.editAt, SlotList.slotAt, if_pos behind]
    rw [Value.editAt_unchanged sound on nowhere]
    simp only [same]
  · intro _
    simp only [look_some found, Option.some.injEq]
    exact Value.reaches_or_stops sound path w.machine

/--
Whatever is done with an owned value in place, through whatever path: it is done to the value at
the end of the path, or, if the path leads nowhere, not at all. The world may be the one after a
run, or the same with a value taken out that the edit puts in.
-/
theorem run_edits_only (base : Base) (operations : List Operation) {w : World}
    (owned : ∀ v ∈ w.values, v ∈ (run base operations).owned) (n : Nat) (path : List Nat)
    (edit : Value.Edit β) : w.EditsOnly n path edit (w.editing n path edit) := by
  cases found : w.values[n]? with
  | none =>
    have nothing : w.editing n path edit = (none, w) := by
      unfold editing
      simp only [found]
    rw [nothing]
    exact editsOnly_nobody found path edit
  | some v =>
    have member := owned v (List.mem_of_getElem? found)
    exact editsOnly_sound found (run_accounts_owned base operations member).1 path edit

def nested : List Operation :=
  [.make (.emptyList (.tracked 0)), .make (.text (.tracked 0) [97, 98]), .give .back 0 0 [],
    .make (.emptyList (.tracked 1)), .make (.integer 7), .give .back 0 0 [],
    .make (.text (.tracked 1) [99]), .give .back 0 0 [], .give .back 0 0 []]

theorem run_edits_only_nested :
    (∀ v ∈ (run .system nested).values, v ∈ (run .system nested).owned) ∧
      ∃ b l l',
        (run .system nested).look 0 [1, 1] = some (.ok (some (.text b))) ∧ b.content = [99] ∧
        (run .system nested).look 0 [1] = some (.ok (some (.list l))) ∧
        let done := (run .system nested).editing 0 [1, 1] (Change.append [100]).edit
        done.1 = some (.ok (some ())) ∧
        done.2.look 0 [0] = (run .system nested).look 0 [0] ∧
        done.2.look 0 [1, 0] = some (.ok (some (.integer 7))) ∧
        done.2.look 0 [1] = some (.ok (some (.list l'))) ∧ SlotList.Refilled l l' 1 := by
  have owned : ∀ v ∈ (run .system nested).values, v ∈ (run .system nested).owned :=
    fun v member => List.mem_append_left _ member
  obtain ⟨b, l, text, content, list, number⟩ : ∃ b l,
      (run .system nested).look 0 [1, 1] = some (.ok (some (.text b))) ∧ b.content = [99] ∧
      (run .system nested).look 0 [1] = some (.ok (some (.list l))) ∧
      (run .system nested).look 0 [1, 0] = some (.ok (some (.integer 7))) :=
    ⟨_, _, rfl, rfl, rfl, rfl⟩
  have only := run_edits_only .system nested owned 0 [1, 1] (Change.append [100]).edit
  obtain ⟨l', after, refilled⟩ := only.onTheWay [1] 1 [] l rfl list
  refine ⟨owned, b, l, l', text, content, list, (only.reached _ text).1, ?_, ?_, after, refilled⟩
  · exact only.beside 0 [0] (.inr ⟨by decide, by decide⟩)
  · exact (only.beside 0 [1, 0] (.inr ⟨by decide, by decide⟩)).trans number

end TrackedValues.World
