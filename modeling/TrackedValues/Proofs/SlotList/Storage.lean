import TrackedValues.Proofs.Memory.Holdings
import TrackedValues.Proofs.SlotList.Sequence

/-!
The storage of a list is the block of its table. Only growth exchanges that block for another; the
steps that link, unlink and overwrite elements leave it as it is.
-/
namespace TrackedValues.SlotList
variable {α β : Type}

def tableHoldings (l : SlotList α) : List Holding :=
  if l.capacity = 0 then [] else [⟨l.allocator, l.tableBytes⟩]

theorem tableHoldings_congr {l : SlotList α} {k : SlotList β} (allocator : l.allocator = k.allocator)
    (capacity : l.capacity = k.capacity) : l.tableHoldings = k.tableHoldings := by
  simp [tableHoldings, tableBytes, allocator, capacity]

theorem releaseTable_eq_giveBack (l : SlotList α) (m : Machine) :
    l.releaseTable m = m.giveBack l.tableHoldings := by
  unfold releaseTable tableHoldings
  split <;> rfl

theorem exchanges_growTable (l : SlotList α) {target : Nat} (wanted : Nat) (m : Machine)
    (larger : l.capacity ≤ target) (positive : 0 < target) :
    m.Exchanges l.tableHoldings (l.growTable target wanted m).machine
      (l.growTable target wanted m).target.tableHoldings := by
  have longer : l.tableBytes ≤ l.allocator.slotSize * target := Nat.mul_le_mul_left _ larger
  rcases growTable_cases l target wanted m with ⟨block, m', _, granted, grown⟩ |
    ⟨m', found, grown⟩
  · rw [grown]
    have after : (l.resized target).tableHoldings =
        [⟨l.allocator, l.allocator.slotSize * target⟩] := if_neg (Nat.ne_of_gt positive)
    rw [after]
    unfold growth at granted
    split at granted
    · rename_i vacant
      rw [tableHoldings, if_pos vacant]
      exact Machine.exchanges_fresh granted
    · rename_i present
      rw [tableHoldings, if_neg present]
      exact Machine.exchanges_grow longer granted
  · rw [grown]
    rcases found with ⟨_, rfl⟩ | refused
    · exact m'.exchanges_refl _
    · exact (Machine.exchanges_refused refused _ : m.Exchanges _ m' _)

theorem exchanges_reserveSlot (l : SlotList α) (m : Machine) :
    m.Exchanges l.tableHoldings (l.reserveSlot m).machine (l.reserveSlot m).target.tableHoldings := by
  by_cases roomy : l.Roomy
  · have same : l.reserveSlot m = ⟨.ok (), l, m⟩ := if_pos roomy
    rw [same]
    exact m.exchanges_refl _
  · rw [reserveSlot_full roomy]
    apply exchanges_growTable _ _ _ (capacity_le_nextCapacity l)
    unfold nextCapacity
    omega

theorem exchanges_pushWith {link : SlotList α → SlotList α}
    (kept : ∀ roomy, (link roomy).tableHoldings = roomy.tableHoldings) (neighbour : Option Nat)
    (l : SlotList α) (m : Machine) :
    m.Exchanges l.tableHoldings (pushWith link neighbour l m).machine
      (pushWith link neighbour l m).target.tableHoldings := by
  have reserved := exchanges_reserveSlot l m
  unfold pushWith Outcome.andThen
  split
  · dsimp only
    split
    · exact reserved
    · rw [kept]
      exact reserved
  · exact reserved

/-- A list is built with a table of its own, or there is no storage for it and nothing is left. -/
theorem withCapacity_cases (a : Allocator) (capacity : Nat) (m : Machine) :
    (∃ l m', (withCapacity a capacity m : Except Error (SlotList α) × Machine) = (.ok l, m') ∧
      Holds l [] ∧ m.Exchanges [] m' l.tableHoldings) ∨
    (∃ cause m', (withCapacity a capacity m : Except Error (SlotList α) × Machine) =
      (.error (.allocation cause), m') ∧ m.Exchanges [] m' []) := by
  by_cases none_wanted : capacity = 0
  · exact Or.inl ⟨_, m, if_pos none_wanted, holds_empty a, m.exchanges_refl _⟩
  · have positive : 0 < max capacity 4 := by omega
    have exchanges := exchanges_growTable (empty a : SlotList α) capacity m (Nat.zero_le _) positive
    have built : (withCapacity a capacity m : Except Error (SlotList α) × Machine) = _ :=
      if_neg none_wanted
    rw [built]
    rcases growTable_cases (empty a : SlotList α) (max capacity 4) capacity m with
      ⟨block, m', _, _, grown⟩ | ⟨m', _, grown⟩
    · rw [grown] at exchanges ⊢
      exact Or.inl ⟨_, m', rfl, holds_of_linked (linked_capacity (linked_empty a) (Nat.zero_le _)),
        exchanges⟩
    · rw [grown] at exchanges ⊢
      exact Or.inr ⟨_, _, rfl, exchanges⟩

theorem withCapacity_holds {a : Allocator} {capacity : Nat} {m m' : Machine} {l : SlotList α}
    (built : withCapacity a capacity m = (.ok l, m')) : Holds l [] := by
  rcases withCapacity_cases (α := α) a capacity m with ⟨l', _, same, holds, _⟩ | ⟨_, _, same, _⟩
  · rw [built] at same
    cases same
    exact holds
  · rw [built] at same
    cases same

theorem tableHoldings_setNextOrHead (l : SlotList α) (place link : Option Nat) :
    (l.setNextOrHead place link).tableHoldings = l.tableHoldings := by
  cases place <;> rfl

theorem tableHoldings_setPrevOrTail (l : SlotList α) (place link : Option Nat) :
    (l.setPrevOrTail place link).tableHoldings = l.tableHoldings := by
  cases place <;> rfl

theorem tableHoldings_place (l : SlotList α) (prev next : Option Nat) (value : α) :
    (l.place prev next value).tableHoldings = l.tableHoldings := by
  unfold place
  split <;> rfl

theorem tableHoldings_linkBack (l : SlotList α) (value : α) :
    (l.linkBack value).tableHoldings = l.tableHoldings :=
  (tableHoldings_setNextOrHead _ _ _).trans (tableHoldings_place l _ _ _)

theorem tableHoldings_linkFront (l : SlotList α) (value : α) :
    (l.linkFront value).tableHoldings = l.tableHoldings :=
  (tableHoldings_setPrevOrTail _ _ _).trans (tableHoldings_place l _ _ _)

theorem tableHoldings_detach (l : SlotList α) (i : Nat) (prev next : Option Nat) :
    (l.detach i prev next).tableHoldings = l.tableHoldings := by
  have relinked : (((l.vacate i).setNextOrHead prev next).setPrevOrTail next prev).tableHoldings =
      l.tableHoldings :=
    (tableHoldings_setPrevOrTail _ _ _).trans (tableHoldings_setNextOrHead _ _ _)
  rw [detach, forgetIfEmpty]
  split
  · exact relinked
  · exact relinked

theorem tableHoldings_unlink (l : SlotList α) (i : Nat) :
    (l.unlink i).2.tableHoldings = l.tableHoldings := by
  unfold unlink
  split
  · rfl
  · split
    · rfl
    · exact tableHoldings_detach l i _ _

theorem tableHoldings_popAt (l : SlotList α) (place : Option Nat) :
    (l.popAt place).2.tableHoldings = l.tableHoldings := by
  cases place with
  | none => rfl
  | some i => exact tableHoldings_unlink l i

theorem tableHoldings_remove (l : SlotList α) (position : Nat) (m : Machine) :
    (l.remove position m).target.tableHoldings = l.tableHoldings := by
  unfold remove
  split
  · rfl
  · rfl
  · rename_i i _
    have unlinked := tableHoldings_unlink l i
    dsimp only
    split
    · exact unlinked
    · exact unlinked

end TrackedValues.SlotList
