import Mathlib.Data.List.Induction
import TrackedValues.Proofs.SlotList.Integrity
import TrackedValues.Proofs.SlotList.Occupancy
import TrackedValues.Proofs.SlotList.Storage

/-!
Packed lists: the elements stand in the table in their order, without a vacant slot between them.
This is what pushing a sequence into a table that was built for it comes to, and since the table is
never full before the last element, no push asks for storage.
-/
namespace TrackedValues.SlotList
variable {α : Type}

def filled (a : Allocator) (capacity : Nat) (xs : List α) : SlotList α :=
  xs.foldl linkBack ((empty a).resized capacity)

/-- The slots of a table that is built for some elements: none at all, or at least four. -/
def slotsFor (n : Nat) : Nat := if n = 0 then 0 else max n 4

def packed (a : Allocator) (xs : List α) : SlotList α := filled a (slotsFor xs.length) xs

theorem le_slotsFor (n : Nat) : n ≤ slotsFor n := by
  unfold slotsFor
  split <;> omega

theorem filled_concat (a : Allocator) (capacity : Nat) (xs : List α) (x : α) :
    filled a capacity (xs ++ [x]) = (filled a capacity xs).linkBack x := by
  simp [filled]

theorem filled_table (a : Allocator) (capacity : Nat) (xs : List α) :
    (filled a capacity xs).allocator = a ∧ (filled a capacity xs).capacity = capacity := by
  induction xs using List.reverseRecOn with
  | nil => exact ⟨rfl, rfl⟩
  | append_singleton xs x ih =>
    obtain ⟨allocator, capacity', _⟩ := link_table .back (filled a capacity xs) x
    rw [filled_concat]
    exact ⟨allocator.trans ih.1, capacity'.trans ih.2⟩

theorem spare_filled {a : Allocator} {capacity : Nat} {xs : List α}
    (holds : Holds (filled a capacity xs) xs) (room : xs.length < capacity) :
    (filled a capacity xs).len < (filled a capacity xs).capacity := by
  rw [len_eq_length holds, (filled_table a capacity xs).2]
  exact room

theorem linked_filled (a : Allocator) {capacity : Nat} {xs : List α}
    (room : xs.length ≤ capacity) :
    ∃ nodes, Linked (filled a capacity xs) nodes [] ∧ values nodes = xs := by
  induction xs using List.reverseRecOn with
  | nil => exact ⟨[], linked_capacity (linked_empty a) (Nat.zero_le capacity), rfl⟩
  | append_singleton xs x ih =>
    rw [List.length_append, List.length_singleton] at room
    obtain ⟨nodes, linked, same⟩ := ih (Nat.le_of_succ_le room)
    have holds : Holds (filled a capacity xs) xs := ⟨nodes, [], linked, same⟩
    have longer := linked_linkBack linked ((roomy_iff holds).mpr (spare_filled holds room)) x
    rw [← filled_concat] at longer
    exact ⟨_, longer, by simpa [values] using same⟩

theorem holds_filled (a : Allocator) {capacity : Nat} {xs : List α}
    (room : xs.length ≤ capacity) : Holds (filled a capacity xs) xs := by
  obtain ⟨nodes, linked, same⟩ := linked_filled a room
  have holds := holds_of_linked linked
  rwa [same] at holds

theorem filled_full (a : Allocator) {capacity : Nat} {xs : List α}
    (room : xs.length ≤ capacity) (i : Nat) : ¬(filled a capacity xs).IsVacant i := by
  obtain ⟨nodes, linked, _⟩ := linked_filled a room
  rw [vacant_iff_mem linked]
  exact List.not_mem_nil

theorem pushBack_filled (a : Allocator) {capacity : Nat} {xs : List α} (x : α)
    (room : xs.length < capacity) (m : Machine) :
    (filled a capacity xs).pushBack x m = ⟨.ok (), filled a capacity (xs ++ [x]), m⟩ := by
  have holds := holds_filled a (Nat.le_of_lt room)
  rw [filled_concat]
  exact push_spare holds (spare_filled holds room) .back x m

theorem withCapacity_answers (a : Allocator) (n : Nat) (m : Machine) :
    (n = 0 ∧ withCapacity a n m = (.ok (filled a (slotsFor n) [] : SlotList α), m)) ∨
    (n ≠ 0 ∧ a.slotSize * slotsFor n ≤ tableMax ∧ ∃ block m',
      m.request a (.fresh (a.slotSize * slotsFor n)) = (some block, m') ∧
      withCapacity a n m = (.ok (filled a (slotsFor n) [] : SlotList α), m')) ∨
    (n ≠ 0 ∧ ∃ m', (tableMax < a.slotSize * slotsFor n ∧ m' = m ∨
        m.request a (.fresh (a.slotSize * slotsFor n)) = (none, m')) ∧
      (withCapacity a n m : Except Error (SlotList α) × Machine) =
        (.error (.allocation ⟨saturatingMul a.slotSize n⟩),
          m'.emit (.tableRefused n (saturatingMul a.slotSize n)))) := by
  by_cases none_wanted : n = 0
  · subst none_wanted
    exact Or.inl ⟨rfl, rfl⟩
  · have built : (withCapacity a n m : Except Error (SlotList α) × Machine) = _ :=
      if_neg none_wanted
    have slots : slotsFor n = max n 4 := if_neg none_wanted
    rw [built, slots]
    right
    rcases growTable_cases (empty a : SlotList α) (max n 4) n m with
      ⟨block, m', addressable, granted, grown⟩ | ⟨m', found, grown⟩
    · exact Or.inl ⟨none_wanted, addressable, block, m', granted, by rw [grown]; rfl⟩
    · exact Or.inr ⟨none_wanted, m', found, by rw [grown]; rfl⟩

theorem packed_table (a : Allocator) (xs : List α) :
    (packed a xs).allocator = a ∧ (packed a xs).capacity = slotsFor xs.length :=
  filled_table a _ xs

theorem holds_packed (a : Allocator) (xs : List α) : Holds (packed a xs) xs :=
  holds_filled a (le_slotsFor xs.length)

end TrackedValues.SlotList
