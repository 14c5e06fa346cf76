import TrackedValues.Proofs.Value.Housing
import TrackedValues.Proofs.World.Atomicity

/-!
Every list that is ever owned is housed. The makers and edits of a world make no other tables, and
a copy is packed into a table that is no larger than that of its original, or has four slots.
-/
namespace TrackedValues
open Value

theorem Value.housed_inside {v w : Value} (inside : v.Inside w) (housed : w.Housed) :
    v.Housed := by
  induction inside with
  | itself => exact housed
  | element member _ ih =>
    cases housed with
    | list table each => exact ih (each _ member)

theorem Value.find_inside {v x : Value} {path : List Nat} {m : Machine} (sound : v.Sound)
    (found : (v.find path m).1 = .ok (some x)) : x.Inside v := by
  induction path generalizing v m with
  | nil =>
    obtain rfl : v = x := by simpa [find] using found
    exact .itself v
  | cons position path ih =>
    unfold find at found
    cases sound with
    | @list l xs holds each =>
      simp only [asList_list, SlotList.get_eq holds] at found
      cases here : xs[position]? with
      | none => simp [here] at found
      | some element =>
        have member := List.mem_of_getElem? here
        simp only [here] at found
        exact .element (SlotList.elements_eq holds ▸ member) (ih (each _ member) found)
    | _ => cases found

theorem Change.houses_edit (change : Change) : change.edit.Houses [] fun _ => [] := by
  intro v m sound housed
  have housed : v.Housed := housed v List.mem_cons_self
  rw [List.forall_mem_singleton]
  cases change with
  | clearList =>
    cases sound with
    | @list l xs holds each =>
      have table := ((housed_list holds).mp housed).1
      exact (housed_list (SlotList.holds_clear l)).mpr ⟨table, by simp⟩
    | _ => exact housed
  | _ => exact housed_onText housed m _

theorem Giving.houses_edit (giving : Giving) (element : Value) :
    (giving.edit element).Houses [element] fun _ => [] := by
  intro v m sound housed
  rw [List.forall_mem_singleton]
  cases giving with
  | inPlace => exact housed element (by simp)
  | back =>
    cases sound with
    | list holds each =>
      exact housed_push holds housed (fun l => l.tableHoldings_linkBack element)
        (ValueList.pushed_back holds element m)
    | _ => exact housed _ List.mem_cons_self
  | front =>
    cases sound with
    | list holds each =>
      exact housed_push holds housed (fun l => l.tableHoldings_linkFront element)
        (ValueList.pushed_front holds element m)
    | _ => exact housed _ List.mem_cons_self

theorem Taking.houses_edit (taking : Taking) : taking.edit.Houses [] ValueList.handedOut := by
  intro v m sound housed
  have housed : v.Housed := housed v List.mem_cons_self
  have refused : ∀ x ∈ [v], x.Housed := List.forall_mem_singleton.mpr housed
  cases taking with
  | front =>
    cases sound with
    | list holds each => exact (housed_pops holds housed).1
    | _ => exact refused
  | back =>
    cases sound with
    | list holds each => exact (housed_pops holds housed).2
    | _ => exact refused
  | nth position =>
    cases sound with
    | @list l xs holds each =>
      by_cases inside : position < xs.length
      · obtain ⟨removed, after⟩ := SlotList.remove_inside holds inside m
        have handed : (Taking.nth position).edit (list l) m =
            (.ok (some xs[position]), list (l.remove position m).target,
              (l.remove position m).machine) := by
          simp only [Taking.edit, Value.remove, onList, Outcome.within, removed]
          rfl
        rw [handed]
        refine housed_handOut holds after (SlotList.tableHoldings_remove l position m) ?_ housed
        intro x member
        rcases List.mem_append.mp member with left | out
        · exact List.mem_of_mem_eraseIdx left
        · rw [List.mem_singleton.mp out]
          exact List.getElem_mem inside
      · simp only [Taking.edit, Value.remove, onList,
          SlotList.remove_outside holds (Nat.not_lt.mp inside) m]
        exact refused
    | _ => exact refused

theorem Maker.housed_make (maker : Maker) (m : Machine) {v : Value}
    (made : (maker.make m).1 = .ok v) : v.Housed := by
  have text : ∀ answer : Except AllocationError TextBuffer × Machine,
      (ofText answer).1 = .ok v → v.Housed := by
    rintro ⟨result, m'⟩ built
    cases result with
    | ok b =>
      cases built
      exact .text b
    | error e => cases built
  cases maker with
  | integer n =>
    cases made
    exact .integer n
  | real x =>
    cases made
    exact .real x
  | boolean b =>
    cases made
    exact .boolean b
  | emptyText a =>
    cases made
    exact .text _
  | roomyText a capacity => exact text _ made
  | text a bytes => exact text _ made
  | emptyList a =>
    cases made
    exact (housed_list (SlotList.holds_empty a)).mpr ⟨SlotList.housed_empty a, by simp⟩
  | roomyList a capacity =>
    cases built : (SlotList.withCapacity a capacity m : Except Error ValueList × Machine) with
    | mk result m' =>
      have made : (ofList (SlotList.withCapacity a capacity m)).1 = .ok v := made
      rw [built] at made
      cases result with
      | error e => cases made
      | ok l =>
        cases made
        exact (housed_list (SlotList.withCapacity_holds built)).mpr
          ⟨SlotList.housed_withCapacity built, by simp⟩

namespace World
variable {β : Type}

theorem houses_adopt {w : World} {answer : Except Error Value × Machine}
    (housed : ∀ x ∈ w.owned, x.Housed) (made : ∀ v, answer.1 = .ok v → v.Housed) :
    ∀ x ∈ (w.adopt answer).owned, x.Housed := by
  unfold adopt
  split
  · rename_i v same
    exact List.forall_mem_cons.mpr ⟨made v same, housed⟩
  · exact housed

theorem houses_editing {edit : Value.Edit β} {given : List Value} {taken : β → List Value}
    (houses : edit.Houses given taken) {w : World} (n : Nat) (path : List Nat)
    (sound : ∀ v ∈ w.owned, v.Sound) (housed : ∀ x ∈ given ++ w.owned, x.Housed) :
    ∀ x ∈ outcome given taken (w.editing n path edit).1 ++ (w.editing n path edit).2.owned,
      x.Housed := by
  unfold editing
  split
  · exact housed
  · rename_i v found
    have before := owned_value found
    have owned : v ∈ w.owned := before.symm.subset List.mem_cons_self
    have edited := houses_editAt houses path w.machine (sound v owned)
      (List.forall_mem_cons.mpr ⟨housed v (List.mem_append_right _ owned), fun x member =>
        housed x (List.mem_append_left _ member)⟩)
    rw [List.forall_mem_cons] at edited
    intro x member
    rcases List.mem_append.mp member with out | kept
    · exact edited.2 x out
    · have after := ((perm_eraseIdx found).2 (v.editAt edit path w.machine).target).append_right
        w.draining
      rcases List.mem_cons.mp (after.subset kept) with rfl | other
      · exact edited.1
      · exact housed x (List.mem_append_right _
          (before.symm.subset (List.mem_cons_of_mem v other)))

theorem houses_give {w : World} (giving : Giving) (element n : Nat) (path : List Nat)
    (sound : ∀ v ∈ w.owned, v.Sound) (housed : ∀ v ∈ w.owned, v.Housed) :
    ∀ v ∈ (w.give giving element n path).owned, v.Housed := by
  unfold give
  split
  · exact housed
  · rename_i v found
    have before := owned_value found
    have edited := houses_editing (giving.houses_edit v)
      (w := { w with values := w.values.eraseIdx element }) n path
      (fun x member => sound x (before.symm.subset (List.mem_cons_of_mem v member)))
      (fun x member => housed x (before.symm.subset member))
    dsimp only
    split
    · rename_i same
      rw [same] at edited
      exact edited
    · rename_i missing same
      rw [same, outcome_missing _ missing] at edited
      exact edited

theorem houses_take {w : World} (taking : Taking) (n : Nat) (path : List Nat)
    (sound : ∀ v ∈ w.owned, v.Sound) (housed : ∀ v ∈ w.owned, v.Housed) :
    ∀ v ∈ (w.take taking n path).owned, v.Housed := by
  have edited := houses_editing taking.houses_edit n path sound housed
  unfold take
  split
  · rename_i same
    rw [same] at edited
    simpa [outcome, Value.besides, owned, draining] using edited
  · rename_i missing same
    rw [same, outcome_missing _ missing] at edited
    exact edited

theorem houses_clone {w : World} (n : Nat) (path : List Nat)
    (sound : ∀ v ∈ w.owned, v.Sound) (housed : ∀ v ∈ w.owned, v.Housed) :
    ∀ v ∈ (w.clone n path).owned, v.Housed := by
  unfold clone
  split
  · exact housed
  · rename_i v found
    have owned : v ∈ w.owned := (owned_value found).symm.subset List.mem_cons_self
    dsimp only
    split
    · rename_i x reached
      have inside := find_inside (sound v owned) reached
      refine houses_adopt (w := { w with machine := (v.find path w.machine).2 }) housed ?_
      intro copy copied
      obtain ⟨rfl, _⟩ := duplicate_ok (sound_inside inside (sound v owned)) (Prod.ext copied rfl)
      exact housed_canonical (sound_inside inside (sound v owned))
        (housed_inside inside (housed v owned))
    · exact housed

theorem houses_pull {w : World} (fromBack : Bool) (n : Nat)
    (sound : ∀ v ∈ w.owned, v.Sound) (housed : ∀ v ∈ w.owned, v.Housed) :
    ∀ v ∈ (w.pull fromBack n).owned, v.Housed := by
  unfold pull
  split
  · exact housed
  · rename_i d found
    have before := owned_drain found
    have owned : Value.list d.list ∈ w.owned := before.symm.subset List.mem_cons_self
    obtain ⟨xs, holds, _⟩ := (sound_list _).mp (sound _ owned)
    have pulled : ∀ x ∈ Value.list (if fromBack then d.nextBack else d.next).2.list ::
        ValueList.handedOut (if fromBack then d.nextBack else d.next).1, x.Housed := by
      cases fromBack with
      | true => exact (housed_pops holds (housed _ owned)).2
      | false => exact (housed_pops holds (housed _ owned)).1
    dsimp only
    generalize (if fromBack then d.nextBack else d.next) = taken at pulled ⊢
    have drains := ((perm_eraseIdx found).2 taken.2).map fun d => Value.list d.list
    have after := (drains.append_left (ValueList.handedOut taken.1 ++ w.values)).trans
      List.perm_middle
    intro x member
    rcases List.mem_cons.mp (after.subset member) with rfl | others
    · exact pulled _ List.mem_cons_self
    · rw [List.append_assoc] at others
      rcases List.mem_append.mp others with out | kept
      · exact pulled x (List.mem_cons_of_mem _ out)
      · exact housed x (before.symm.subset (List.mem_cons_of_mem _ kept))

theorem owned_drop_subset (w : World) (n : Nat) : (w.drop n).owned ⊆ w.owned := by
  unfold drop
  split
  · exact List.Subset.refl _
  · rename_i v found
    intro x member
    exact (owned_value found).symm.subset (List.mem_cons_of_mem v member)

theorem owned_consume_subset (w : World) (n : Nat) : (w.consume n).owned ⊆ w.owned := by
  unfold consume
  split
  · rename_i l found
    exact ((owned_value found).trans List.perm_middle.symm).symm.subset
  · exact List.Subset.refl _

theorem owned_dropDrain_subset (w : World) (n : Nat) : (w.dropDrain n).owned ⊆ w.owned := by
  unfold dropDrain
  split
  · exact List.Subset.refl _
  · rename_i d found
    intro x member
    exact (owned_drain found).symm.subset (List.mem_cons_of_mem _ member)

theorem houses_perform {w : World} (operation : Operation) (sound : ∀ v ∈ w.owned, v.Sound)
    (housed : ∀ v ∈ w.owned, v.Housed) : ∀ v ∈ (w.perform operation).owned, v.Housed := by
  cases operation with
  | make maker => exact houses_adopt housed fun _ made => maker.housed_make w.machine made
  | change n path change =>
    have edited := houses_editing change.houses_edit n path sound housed
    rw [outcome_nothing] at edited
    exact edited
  | give giving element n path => exact houses_give giving element n path sound housed
  | take taking n path => exact houses_take taking n path sound housed
  | clone n path => exact houses_clone n path sound housed
  | drop n => exact fun v member => housed v (owned_drop_subset w n member)
  | consume n => exact fun v member => housed v (owned_consume_subset w n member)
  | pull fromBack n => exact houses_pull fromBack n sound housed
  | dropDrain n => exact fun v member => housed v (owned_dropDrain_subset w n member)
  | setLimit t limit => exact housed

theorem run_concat (base : Base) (operations : List Operation) (operation : Operation) :
    run base (operations ++ [operation]) = (run base operations).perform operation := by
  simp [run]

/-- After any run, every list that is owned, at any depth, is housed. -/
theorem run_housed (base : Base) (operations : List Operation) :
    ∀ v ∈ (run base operations).owned, v.Housed := by
  induction operations using List.reverseRecOn with
  | nil => simp [run, start, owned, draining]
  | append_singleton operations operation ih =>
    rw [run_concat]
    exact houses_perform operation (run_accounts base operations).2 ih

end World
end TrackedValues
