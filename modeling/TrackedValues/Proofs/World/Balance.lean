import TrackedValues.Proofs.World.Basic

/-!
Every tracker counts exactly what is owned. Each operation of a world moves what is owned before it
to what is owned after it, so after any run the trackers show the containers of all owned values,
and nothing when nothing is owned.
-/
namespace TrackedValues

theorem Maker.makes (maker : Maker) (m : Machine) : m.Makes (maker.make m) := by
  cases maker with
  | integer n => exact Machine.moves_nothing (.integer n) (m.exchanges_refl _)
  | real x => exact Machine.moves_nothing (.real x) (m.exchanges_refl _)
  | boolean b => exact Machine.moves_nothing (.boolean b) (m.exchanges_refl _)
  | emptyText a =>
    exact Machine.moves_nothing (.text (TextBuffer.sound_empty a)) (m.exchanges_refl _)
  | roomyText a capacity =>
    exact Machine.makes_ofText (TextBuffer.made_withCapacity a capacity m)
  | text a bytes => exact Machine.makes_ofText (TextBuffer.made_ofBytes a bytes m)
  | emptyList a =>
    have sound : (Value.emptyList a).Sound := .list (SlotList.holds_empty a) (by simp)
    exact Machine.moves_nothing sound (m.exchanges_refl _)
  | roomyList a capacity => exact ValueList.makes_withCapacity a capacity m

theorem Change.moves_edit (change : Change) : change.edit.Moves [] fun _ => [] := by
  intro v m
  cases change with
  | append bytes => exact v.moves_onText m fun b => b.keeps_append bytes m
  | write pieces => exact v.moves_onText m fun b => b.keeps_appendAll pieces m
  | reserve additional => exact v.moves_onText m fun b => b.keeps_reserve additional m
  | truncate len => exact v.moves_onText m fun b => b.keeps_truncate len m _
  | clearText =>
    exact v.moves_onText m fun b => b.keeps_change b.clear rfl rfl (Nat.zero_le _) m _
  | withPolicy policy =>
    exact v.moves_onText m fun b => b.keeps_change (b.withPolicy policy) rfl rfl (Nat.le_refl _) m _
  | clearList => exact v.moves_clear m

theorem Giving.moves_edit (giving : Giving) (element : Value) :
    (giving.edit element).Moves [element] fun _ => [] := by
  intro v m
  cases giving with
  | back => exact v.moves_pushBack element m
  | front => exact v.moves_pushFront element m
  | inPlace => exact v.moves_overwrite element m

theorem Taking.moves_edit (taking : Taking) : taking.edit.Moves [] ValueList.handedOut := by
  intro v m
  cases taking with
  | front => exact v.moves_popFront m
  | back => exact v.moves_popBack m
  | nth position => exact v.moves_remove position m

theorem Drain.moves_pull (d : Drain Value) (fromBack : Bool) (m : Machine) :
    let taken := if fromBack then d.nextBack else d.next
    m.Moves [.list d.list] m (.list taken.2.list :: ValueList.handedOut taken.1) := by
  cases fromBack with
  | true => exact ValueList.moves_popBack d.list m
  | false => exact ValueList.moves_popFront d.list m

namespace World
variable {β : Type}

theorem owned_value {w : World} {n : Nat} {v : Value} (found : w.values[n]? = some v) :
    w.owned.Perm (v :: (w.values.eraseIdx n ++ w.draining)) :=
  (perm_eraseIdx found).1.append_right w.draining

theorem owned_drain {w : World} {n : Nat} {d : Drain Value} (found : w.drains[n]? = some d) :
    w.owned.Perm (.list d.list :: (w.values ++
      (w.drains.eraseIdx n).map fun d => .list d.list)) := by
  have drains := (perm_eraseIdx found).1.map fun d => Value.list d.list
  exact (drains.append_left w.values).trans List.perm_middle

theorem moves_adopt {w : World} {answer : Except Error Value × Machine}
    (makes : w.machine.Makes answer) :
    w.machine.Moves w.owned (w.adopt answer).machine (w.adopt answer).owned := by
  obtain ⟨result, m⟩ := answer
  cases result with
  | ok v => exact Machine.moves_beside makes w.owned
  | error e => exact Machine.moves_beside makes.2 w.owned

def outcome (given : List Value) (taken : β → List Value) :
    Option (Except Error (Option β)) → List Value
  | some answer => Value.besides given taken answer
  | none => given

theorem outcome_missing {given : List Value} (taken : β → List Value)
    {answer : Option (Except Error (Option β))} (missing : ∀ b, answer ≠ some (.ok (some b))) :
    outcome given taken answer = given := by
  rcases answer with _ | _ | _ | b
  · rfl
  · rfl
  · rfl
  · exact absurd rfl (missing b)

theorem outcome_nothing (answer : Option (Except Error (Option β))) :
    outcome [] (fun _ => []) answer = [] := by
  rcases answer with _ | _ | _ | b <;> rfl

theorem moves_editing {edit : Value.Edit β} {given : List Value} {taken : β → List Value}
    (moves : edit.Moves given taken) (w : World) (n : Nat) (path : List Nat) :
    w.machine.Moves (given ++ w.owned) (w.editing n path edit).2.machine
      (outcome given taken (w.editing n path edit).1 ++ (w.editing n path edit).2.owned) := by
  unfold editing
  split
  · exact w.machine.moves_refl _
  · rename_i v found
    have edited := Machine.moves_beside (Value.moves_editAt moves path v w.machine)
      (w.values.eraseIdx n ++ w.draining)
    refine Machine.moves_congr edited ?_ ?_
    · exact ((owned_value found).append_left given).trans List.perm_middle
    · have after := ((perm_eraseIdx found).2 (v.editAt edit path w.machine).target).append_right
        w.draining
      exact (after.append_left _).trans List.perm_middle |>.symm

theorem moves_give (w : World) (giving : Giving) (element n : Nat) (path : List Nat) :
    w.machine.Moves w.owned (w.give giving element n path).machine
      (w.give giving element n path).owned := by
  unfold give
  split
  · exact w.machine.moves_refl _
  · rename_i v found
    have edited := moves_editing (giving.moves_edit v)
      { w with values := w.values.eraseIdx element } n path
    have edited := Machine.moves_congr edited (owned_value found) (List.Perm.refl _)
    dsimp only
    split
    · rename_i same
      rw [same] at edited
      exact edited
    · rename_i missing same
      rw [same, outcome_missing _ missing] at edited
      exact edited

theorem moves_take (w : World) (taking : Taking) (n : Nat) (path : List Nat) :
    w.machine.Moves w.owned (w.take taking n path).machine (w.take taking n path).owned := by
  have edited := moves_editing taking.moves_edit w n path
  unfold take
  split
  · rename_i same
    rw [same] at edited
    simpa [outcome, Value.besides, owned, draining] using edited
  · rename_i missing same
    rw [same, outcome_missing _ missing] at edited
    exact edited

theorem moves_clone (w : World) (n : Nat) (path : List Nat) :
    w.machine.Moves w.owned (w.clone n path).machine (w.clone n path).owned := by
  unfold clone
  split
  · exact w.machine.moves_refl _
  · rename_i v found
    have looked := Machine.moves_of_heap (v.find_heap path w.machine) w.owned
    dsimp only
    split
    · rename_i x _
      have makes := x.makes_duplicate (v.find path w.machine).2
      exact Machine.moves_trans looked
        (moves_adopt (w := { w with machine := (v.find path w.machine).2 }) makes)
    · exact looked

theorem moves_drop (w : World) (n : Nat) :
    w.machine.Moves w.owned (w.drop n).machine (w.drop n).owned := by
  unfold drop
  split
  · exact w.machine.moves_refl _
  · rename_i v found
    have released := Machine.moves_beside (Machine.moves_release v w.machine)
      (w.values.eraseIdx n ++ w.draining)
    exact Machine.moves_congr released (owned_value found) (List.Perm.refl _)

theorem moves_consume (w : World) (n : Nat) :
    w.machine.Moves w.owned (w.consume n).machine (w.consume n).owned := by
  unfold consume
  split
  · rename_i l found
    apply Machine.moves_perm
    exact (owned_value found).trans List.perm_middle.symm
  · exact w.machine.moves_refl _

theorem moves_pull (w : World) (fromBack : Bool) (n : Nat) :
    w.machine.Moves w.owned (w.pull fromBack n).machine (w.pull fromBack n).owned := by
  unfold pull
  split
  · exact w.machine.moves_refl _
  · rename_i d found
    have pulled := Machine.moves_beside (d.moves_pull fromBack w.machine)
      (w.values ++ (w.drains.eraseIdx n).map fun d => .list d.list)
    dsimp only at pulled ⊢
    generalize (if fromBack then d.nextBack else d.next) = taken at pulled ⊢
    refine Machine.moves_congr pulled (owned_drain found) ?_
    have drains := ((perm_eraseIdx found).2 taken.2).map fun d => Value.list d.list
    have after := drains.append_left (ValueList.handedOut taken.1 ++ w.values)
    refine (List.Perm.trans ?_ (after.trans List.perm_middle).symm)
    simp

theorem moves_dropDrain (w : World) (n : Nat) :
    w.machine.Moves w.owned (w.dropDrain n).machine (w.dropDrain n).owned := by
  unfold dropDrain
  split
  · exact w.machine.moves_refl _
  · rename_i d found
    have released := Machine.moves_beside (Machine.moves_releaseList d.list w.machine)
      (w.values ++ (w.drains.eraseIdx n).map fun d => .list d.list)
    exact Machine.moves_congr released (owned_drain found) (List.Perm.refl _)

theorem moves_perform (w : World) (operation : Operation) :
    w.machine.Moves w.owned (w.perform operation).machine (w.perform operation).owned := by
  cases operation with
  | make maker => exact moves_adopt (maker.makes w.machine)
  | change n path change =>
    have edited := moves_editing change.moves_edit w n path
    rw [outcome_nothing] at edited
    exact edited
  | give giving element n path => exact w.moves_give giving element n path
  | take taking n path => exact w.moves_take taking n path
  | clone n path => exact w.moves_clone n path
  | drop n => exact w.moves_drop n
  | consume n => exact w.moves_consume n
  | pull fromBack n => exact w.moves_pull fromBack n
  | dropDrain n => exact w.moves_dropDrain n
  | setLimit t limit => exact fun sound => ⟨w.machine.exchanges_setLimit t limit _, sound⟩

theorem moves_operations (w : World) (operations : List Operation) :
    w.machine.Moves w.owned (operations.foldl perform w).machine
      (operations.foldl perform w).owned := by
  induction operations generalizing w with
  | nil => exact w.machine.moves_refl _
  | cons operation more ih => exact Machine.moves_trans (w.moves_perform operation) (ih _)

theorem run_accounts (base : Base) (operations : List Operation) :
    (run base operations).machine.heap.Accounts
      ((run base operations).owned.flatMap Value.holdings) ∧
      ∀ v ∈ (run base operations).owned, v.Sound := by
  have unowned : (start base).owned = [] := rfl
  have moves := moves_operations (start base) operations
  rw [unowned] at moves
  obtain ⟨exchanges, sound⟩ := moves (by simp)
  have accounts := exchanges [] (Heap.accounts_start base)
  rw [List.append_nil] at accounts
  exact ⟨accounts, sound⟩

def containers (w : World) : List Holding := w.owned.flatMap Value.containers

/--
After any run, a tracker shows the bytes of all owned containers whose handle passes it, and the
number of those that have storage; it is balanced once nothing is owned.
-/
theorem run_balances (base : Base) (operations : List Operation) (t : TrackerId) :
    ((run base operations).stats t).liveBytes =
        Holding.bytes t (run base operations).containers ∧
      ((run base operations).stats t).liveAllocations =
        Holding.count t (Holding.live (run base operations).containers) ∧
      ((run base operations).stats t).deallocations ≤
        ((run base operations).stats t).allocations ∧
      ((run base operations).owned = [] → ((run base operations).stats t).IsBalanced) := by
  obtain ⟨accounts, sound⟩ := run_accounts base operations
  obtain ⟨bytes, blocks⟩ := accounts t
  have perm : ((run base operations).owned.flatMap Value.holdings).Perm
      (Holding.live (run base operations).containers) :=
    Value.holdings_perm_flatMap fun v member => Value.holdings_perm_containers (sound v member)
  rw [Holding.bytes_perm t perm, Holding.bytes_live] at bytes
  rw [Holding.count_perm t perm] at blocks
  have live : ((run base operations).stats t).liveAllocations =
      Holding.count t (Holding.live (run base operations).containers) := by
    simp only [stats, Stats.liveAllocations, blocks]
    omega
  refine ⟨bytes, live, ?_, fun dropped => ?_⟩
  · simp only [stats, blocks]
    omega
  · have nothing : (run base operations).containers = [] := by simp [containers, dropped]
    rw [nothing] at bytes live
    exact ⟨live, bytes⟩

/--
A text of three bytes goes into a list, and copying the list fails at the text: what remains are
the table and the text, and then nothing.
-/
def halfCopied : List Operation :=
  [.make (.roomyList (.tracked 0) 2), .make (.text (.tracked 1) [97, 98, 99]),
    .give .back 0 0 [], .setLimit 1 (some 5), .clone 0 []]

theorem run_balances_halfCopied :
    ((run .system halfCopied).stats 0).liveBytes = 480 ∧
      ((run .system halfCopied).stats 0).deallocations = 1 ∧
      ((run .system halfCopied).stats 1).liveAllocations = 1 ∧
      ((run .system (halfCopied ++ [.drop 0])).stats 0).IsBalanced := by
  have dropped : (run .system (halfCopied ++ [.drop 0])).owned.isEmpty = true := by decide +kernel
  have table := (run_balances .system halfCopied 0).1
  have text := (run_balances .system halfCopied 1).2.1
  have balanced := (run_balances .system (halfCopied ++ [.drop 0]) 0).2.2.2
  refine ⟨table.trans ?_, ?_, text.trans ?_, balanced (List.isEmpty_iff.mp dropped)⟩
  · decide +kernel
  · decide +kernel
  · decide +kernel

end World
end TrackedValues
