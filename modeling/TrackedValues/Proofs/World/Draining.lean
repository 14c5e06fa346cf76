import TrackedValues.Proofs.SlotList.Occupancy
import TrackedValues.Proofs.World.Balance

/-!
Draining a list up to any point. The calls of a drain divide the elements of its list. Those that
were yielded are the world's own from then on, as they are; dropping the drain gives back the table
of the list and all that the other elements hold.
-/
namespace TrackedValues
open Call (yields)

namespace Drain
variable {α : Type}

def serve (d : Drain α) (calls : List (Call α)) :
    List Side → Except Error (List (Call α) × Drain α)
  | [] => .ok (calls, d)
  | s :: sides =>
    match (d.call s).1 with
    | .ok answer => (d.call s).2.serve (⟨s, answer⟩ :: calls) sides
    | .error e => .error e

/-- What the calls have left of the sequence is what the drain still holds, in the same table. -/
structure Keeps (l : SlotList α) (xs : List α) (calls : List (Call α)) (d : Drain α)
    (rest : List α) : Prop where
  divides : Divides xs calls rest
  holds : SlotList.Holds d.list rest
  allocator : d.list.allocator = l.allocator
  capacity : d.list.capacity = l.capacity

variable {l : SlotList α} {xs rest : List α} {calls : List (Call α)} {d : Drain α}

theorem keeps_call (keeps : Keeps l xs calls d rest) (s : Side) :
    (d.call s).1 = .ok (s.first? rest) ∧
      Keeps l xs (⟨s, s.first? rest⟩ :: calls) (d.call s).2 (s.others rest) := by
  obtain ⟨answered, holds⟩ := call_eq keeps.holds s
  have retains := SlotList.retains_call keeps.holds s
  exact ⟨answered, keeps.divides.step s, holds, retains.allocator.trans keeps.allocator,
    retains.capacity.trans keeps.capacity⟩

theorem keeps_serve (keeps : Keeps l xs calls d rest) (sides : List Side) :
    ∃ calls' d' rest', d.serve calls sides = .ok (calls', d') ∧ Keeps l xs calls' d' rest' := by
  induction sides generalizing calls d rest with
  | nil => exact ⟨calls, d, rest, rfl, keeps⟩
  | cons s sides ih =>
    obtain ⟨answered, after⟩ := keeps_call keeps s
    obtain ⟨calls', d', rest', served, last⟩ := ih after
    refine ⟨calls', d', rest', ?_, last⟩
    simp only [serve, answered, served]

end Drain

namespace World

def calling (n : Nat) (s : Side) : Operation := .pull (s = .back) n

theorem consume_list {w : World} {n : Nat} {l : ValueList}
    (found : w.values[n]? = some (.list l)) :
    w.consume n = { w with values := w.values.eraseIdx n, drains := ⟨l⟩ :: w.drains } := by
  unfold consume
  rw [found]

theorem perform_calling (w : World) {values : List Value} {d : Drain Value}
    {others : List (Drain Value)} {s : Side} {answer : Option Value}
    (answered : (d.call s).1 = .ok answer) :
    { w with values := values, drains := d :: others }.perform (calling 0 s) =
      { w with values := answer.toList ++ values, drains := (d.call s).2 :: others } := by
  have handed : ValueList.handedOut (d.call s).1 = answer.toList := by
    rw [answered]
    cases answer <;> rfl
  rw [← handed]
  cases s <;> rfl

theorem perform_callings (w : World) {kept : List Value} {others : List (Drain Value)}
    {calls calls' : List (Call Value)} {d d' : Drain Value} {sides : List Side}
    (served : d.serve calls sides = .ok (calls', d')) :
    (sides.map (calling 0)).foldl perform
        { w with values := yields calls ++ kept, drains := d :: others } =
      { w with values := yields calls' ++ kept, drains := d' :: others } := by
  induction sides generalizing calls d with
  | nil =>
    cases served
    rfl
  | cons s sides ih =>
    unfold Drain.serve at served
    split at served
    · rename_i answer answered
      have more := ih served
      rw [Call.yields_cons, List.append_assoc] at more
      rw [List.map_cons, List.foldl_cons, perform_calling w answered]
      exact more
    · cases served

theorem takes_apart {w : World} {n : Nat} {l : ValueList} {xs : List Value}
    (holds : SlotList.Holds l xs) (found : w.values[n]? = some (.list l)) (sides : List Side) :
    ∃ calls d rest, (Drain.mk l).serve [] sides = .ok (calls, d) ∧ Drain.Keeps l xs calls d rest ∧
      (Operation.consume n :: sides.map (calling 0)).foldl perform w =
        { w with values := yields calls ++ w.values.eraseIdx n, drains := d :: w.drains } := by
  have whole : Drain.Keeps l xs [] (Drain.mk l) xs := ⟨.untouched xs, holds, rfl, rfl⟩
  obtain ⟨calls, d, rest, served, keeps⟩ := Drain.keeps_serve whole sides
  refine ⟨calls, d, rest, served, keeps, ?_⟩
  have consumed : w.perform (.consume n) =
      { w with values := yields [] ++ w.values.eraseIdx n, drains := ⟨l⟩ :: w.drains } :=
    consume_list found
  rw [List.foldl_cons, consumed]
  exact perform_callings w served

theorem givesBack_dropDrain {w : World}
    (accounts : w.machine.heap.Accounts (w.owned.flatMap Value.holdings))
    (sound : ∀ v ∈ w.owned, v.Sound) {n : Nat} {d : Drain Value} (found : w.drains[n]? = some d)
    {rest : List Value} (holds : SlotList.Holds d.list rest) :
    w.machine.GivesBack
      (⟨d.list.allocator, d.list.tableBytes⟩ :: rest.flatMap Value.containers)
      (w.dropDrain n).machine := by
  have perm := owned_drain found
  have sound_list := sound (.list d.list) (perm.symm.subset List.mem_cons_self)
  have accounts := Heap.accounts_perm accounts (perm.flatMap_right Value.holdings)
  have gone := Value.givesBack_release sound_list accounts
  rw [Value.release_list, Value.containers_list, SlotList.elements_eq holds] at gone
  unfold dropDrain
  rw [found]
  exact gone

/--
What becomes of a list that a world takes apart by calls from some sides, and of the elements that
it still holds when it is dropped.
-/
structure Drained (w : World) (n : Nat) (l : ValueList) (calls : List (Call Value))
    (rest : List Value) (d : Drain Value) (drained dropped : World) : Prop where
  divides : Divides l.elements calls rest
  remaining : d.remaining = rest.length
  yielded : drained =
    { w with values := yields calls ++ w.values.eraseIdx n, drains := d :: w.drains }
  intact : dropped.values = drained.values ∧ dropped.drains = w.drains
  givesBack : w.machine.GivesBack
    (⟨l.allocator, l.tableBytes⟩ :: rest.flatMap Value.containers) dropped.machine
  accounts : dropped.machine.heap.Accounts (dropped.owned.flatMap Value.holdings)
  sound : ∀ v ∈ dropped.owned, v.Sound

/--
After any run, an owned list may be taken apart from both sides in any order, and dropped at any
point. No call fails, and each element is either yielded once or released with the table.
-/
theorem run_drains (base : Base) (operations : List Operation) {n : Nat} {l : ValueList}
    (found : (run base operations).values[n]? = some (.list l)) (sides : List Side) :
    ∃ calls rest d, (Drain.mk l).serve [] sides = .ok (calls, d) ∧
      Drained (run base operations) n l calls rest d
        (run base (operations ++ .consume n :: sides.map (calling 0)))
        (run base (operations ++ .consume n :: sides.map (calling 0) ++ [.dropDrain 0])) := by
  have member : .list l ∈ (run base operations).owned :=
    List.mem_append_left _ (List.mem_of_getElem? found)
  have sound := (run_accounts base operations).2 _ member
  obtain ⟨xs, holds, _⟩ := (Value.sound_list l).mp sound
  obtain ⟨calls, d, rest, served, keeps, taken⟩ := takes_apart holds found sides
  have drained : run base (operations ++ .consume n :: sides.map (calling 0)) = _ :=
    List.foldl_append.trans taken
  have dropped : run base (operations ++ .consume n :: sides.map (calling 0) ++ [.dropDrain 0]) =
      (run base (operations ++ .consume n :: sides.map (calling 0))).dropDrain 0 :=
    List.foldl_append
  obtain ⟨accounts, each⟩ := run_accounts base (operations ++ .consume n :: sides.map (calling 0))
  obtain ⟨accounts', each'⟩ :=
    run_accounts base (operations ++ .consume n :: sides.map (calling 0) ++ [.dropDrain 0])
  refine ⟨calls, rest, d, served, ?_, ?_, drained, ?_, ?_, accounts', each'⟩
  · rw [SlotList.elements_eq holds]
    exact keeps.divides
  · exact SlotList.len_eq_length keeps.holds
  · rw [dropped, drained]
    exact ⟨rfl, rfl⟩
  · rw [dropped]
    rw [drained] at accounts each ⊢
    have gone := givesBack_dropDrain accounts each (n := 0) rfl keeps.holds
    rwa [keeps.allocator, SlotList.tableBytes, keeps.allocator, keeps.capacity] at gone

def mixed : List Operation :=
  [.make (.roomyList (.tracked 0) 2), .make (.text (.tracked 1) [97, 98, 99]), .give .back 0 0 [],
    .make (.integer 7), .give .back 0 0 [], .make (.text (.tracked 1) [100]), .give .front 0 0 []]

def mostlyDrained : World :=
  run .system (mixed ++ .consume 0 :: [Side.back, .back].map (calling 0) ++ [.dropDrain 0])

theorem run_drains_mixed :
    ((run .system mixed).stats 0).liveBytes = 480 ∧ ((run .system mixed).stats 1).liveBytes = 4 ∧
      (mostlyDrained.stats 0).liveBytes = 0 ∧ (mostlyDrained.stats 1).liveBytes = 3 ∧
      ∃ l calls rest d, (run .system mixed).values[0]? = some (.list l) ∧
        (Drain.mk l).serve [] [.back, .back] = .ok (calls, d) ∧
        Drained (run .system mixed) 0 l calls rest d
          (run .system (mixed ++ .consume 0 :: [Side.back, .back].map (calling 0)))
          mostlyDrained := by
  obtain ⟨l, found⟩ : ∃ l, (run .system mixed).values[0]? = some (.list l) := ⟨_, rfl⟩
  obtain ⟨calls, rest, d, served, drained⟩ := run_drains .system mixed found [.back, .back]
  refine ⟨?_, ?_, ?_, ?_, l, calls, rest, d, found, served, drained⟩
  · decide +kernel
  · decide +kernel
  · decide +kernel
  · decide +kernel

end World
end TrackedValues
