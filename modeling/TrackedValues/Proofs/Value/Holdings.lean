import TrackedValues.Proofs.Buffer.Growth
import TrackedValues.Proofs.SlotList.Storage
import TrackedValues.Value.Ownership

/-!
What values hold. A list holds what its elements hold, in the order of its table, and the block of
the table; releasing a value gives back exactly its holdings. A value is sound when every buffer
and every list in it is.
-/
namespace TrackedValues

theorem SlotList.sizeOf_stored {l : ValueList} {v : Value} (member : v ∈ l.stored) :
    sizeOf v < sizeOf (Value.list l) := by
  obtain ⟨s, inside, found⟩ := List.mem_filterMap.mp member
  have table := Array.sizeOf_lt_of_mem (Array.mem_toList_iff.mp inside)
  cases s with
  | vacant nextFree => simp [Slot.value?] at found
  | occupied prev next value =>
    obtain rfl : value = v := by simpa [Slot.value?] using found
    cases l
    simp only [Slot.occupied.sizeOf_spec, Value.list.sizeOf_spec, SlotList.mk.sizeOf_spec] at *
    omega

namespace Value

/-- Induction on values: a list may use that the statement holds of all that its table stores. -/
theorem induct_stored {holds : Value → Prop} (integer : ∀ n, holds (.integer n))
    (real : ∀ x, holds (.real x)) (text : ∀ b, holds (.text b))
    (boolean : ∀ b, holds (.boolean b))
    (list : ∀ l : ValueList, (∀ v ∈ l.stored, holds v) → holds (.list l)) (v : Value) : holds v := by
  induction h : sizeOf v using Nat.strongRecOn generalizing v with
  | _ size ih =>
    subst h
    cases v with
    | integer n => exact integer n
    | real x => exact real x
    | text b => exact text b
    | boolean b => exact boolean b
    | list l => exact list l fun v member => ih _ (SlotList.sizeOf_stored member) v rfl

def holding : Cases (List Holding) where
  integer _ := []
  real _ := []
  text b := b.holdings
  boolean _ := []
  list l := l.stored.flatten ++ l.tableHoldings

/-- The live blocks that a value owns, at any depth, with the handle each was obtained through. -/
def holdings (v : Value) : List Holding := v.fold holding

end Value

def ValueList.holdings (l : ValueList) : List Holding :=
  l.stored.flatMap Value.holdings ++ l.tableHoldings

namespace Value

theorem holdings_list (l : ValueList) : (list l).holdings = ValueList.holdings l := by
  have folded : (list l).holdings =
      (l.map holdings).stored.flatten ++ (l.map holdings).tableHoldings := fold_list holding l
  have table : (l.map holdings).tableHoldings = l.tableHoldings :=
    SlotList.tableHoldings_congr rfl rfl
  rw [folded, SlotList.stored_map, table, ← List.flatMap_def]
  rfl

theorem release_list (l : ValueList) : (list l).release = ValueList.release l :=
  fold_list releasing l

theorem releaseStored_eq_giveBack {vs : List Value}
    (each : ∀ v ∈ vs, ∀ m, v.release m = m.giveBack v.holdings) (m : Machine) :
    (vs.map release).foldl (fun m release => release m) m =
      m.giveBack (vs.flatMap holdings) := by
  induction vs generalizing m with
  | nil => rfl
  | cons v vs ih =>
    simp only [List.mem_cons, forall_eq_or_imp] at each
    rw [List.map_cons, List.foldl_cons, List.flatMap_cons, Machine.giveBack_append, each.1,
      ih each.2]

theorem release_eq_giveBack (v : Value) (m : Machine) : v.release m = m.giveBack v.holdings := by
  induction v using induct_stored generalizing m with
  | integer n => rfl
  | real x => rfl
  | text b => exact b.release_eq_giveBack m
  | boolean b => rfl
  | list l each =>
    have elements := releaseStored_eq_giveBack (fun v member m => each v member m) m
    rw [holdings_list, ValueList.holdings, Machine.giveBack_append, ← elements,
      ← SlotList.releaseTable_eq_giveBack, ← SlotList.stored_map]
    unfold release
    rw [fold_list]
    rfl

theorem exchanges_release (v : Value) (m : Machine) :
    m.Exchanges v.holdings (v.release m) [] := by
  rw [release_eq_giveBack]
  exact m.exchanges_giveBack _

end Value

namespace ValueList

theorem releaseElements_eq_giveBack (l : ValueList) (m : Machine) :
    releaseElements l m = m.giveBack (l.stored.flatMap Value.holdings) := by
  have elements := Value.releaseStored_eq_giveBack
    (fun (v : Value) (_ : v ∈ l.stored) m => v.release_eq_giveBack m) m
  rw [← elements, ← SlotList.stored_map]
  rfl

theorem release_eq_giveBack (l : ValueList) (m : Machine) :
    release l m = m.giveBack (holdings l) := by
  rw [release, SlotList.releaseTable_eq_giveBack, releaseElements_eq_giveBack,
    ← Machine.giveBack_append]
  rfl

theorem exchanges_release (l : ValueList) (m : Machine) :
    m.Exchanges (holdings l) (release l m) [] := by
  rw [release_eq_giveBack]
  exact m.exchanges_giveBack _

end ValueList

/-- Every buffer of the value is sound, and every list of it holds sound elements. -/
inductive Value.Sound : Value → Prop
  | integer (n : Int64) : Sound (.integer n)
  | real (x : Binary64) : Sound (.real x)
  | text {b : TextBuffer} (sound : b.Sound) : Sound (.text b)
  | boolean (b : Bool) : Sound (.boolean b)
  | list {l : ValueList} {xs : List Value} (holds : SlotList.Holds l xs)
    (each : ∀ v ∈ xs, Sound v) : Sound (.list l)

def ValueList.Sound (l : ValueList) : Prop :=
  ∃ xs, SlotList.Holds l xs ∧ ∀ v ∈ xs, v.Sound

theorem Value.sound_list (l : ValueList) : (Value.list l).Sound ↔ ValueList.Sound l := by
  constructor
  · intro sound
    cases sound with
    | list holds each => exact ⟨_, holds, each⟩
  · rintro ⟨xs, holds, each⟩
    exact .list holds each

theorem ValueList.holdings_perm {l : ValueList} {xs : List Value} (holds : SlotList.Holds l xs) :
    (holdings l).Perm (xs.flatMap Value.holdings ++ l.tableHoldings) :=
  ((SlotList.stored_perm holds).flatMap_right _).append_right _

namespace Value

def containing : Cases (List Holding) where
  integer _ := []
  real _ := []
  text b := [⟨b.allocator, b.capacity⟩]
  boolean _ := []
  list l := ⟨l.allocator, l.tableBytes⟩ :: l.elements.flatten

/-- Every buffer and every list of a value, at any depth, with the bytes of its storage. -/
def containers (v : Value) : List Holding := v.fold containing

theorem containers_list (l : ValueList) :
    (list l).containers = ⟨l.allocator, l.tableBytes⟩ :: l.elements.flatMap containers := by
  have folded : (list l).containers =
      ⟨l.allocator, l.tableBytes⟩ :: (l.map containers).elements.flatten := fold_list containing l
  rw [folded, SlotList.elements_map, ← List.flatMap_def]

theorem live_table (l : ValueList) :
    Holding.live [⟨l.allocator, l.tableBytes⟩] = l.tableHoldings := by
  have positive : 0 < l.allocator.slotSize := by
    unfold Allocator.slotSize
    omega
  by_cases vacant : l.capacity = 0
  · simp [Holding.live, SlotList.tableHoldings, SlotList.tableBytes, vacant]
  · have bytes : l.tableBytes ≠ 0 := Nat.mul_ne_zero (Nat.ne_of_gt positive) vacant
    simp [Holding.live, SlotList.tableHoldings, vacant, bytes]

theorem live_buffer (b : TextBuffer) : Holding.live [⟨b.allocator, b.capacity⟩] = b.holdings := by
  by_cases vacant : b.capacity = 0 <;> simp [Holding.live, TextBuffer.holdings, vacant]

theorem holdings_perm_flatMap {vs : List Value}
    (each : ∀ v ∈ vs, v.holdings.Perm (Holding.live v.containers)) :
    (vs.flatMap holdings).Perm (Holding.live (vs.flatMap containers)) := by
  induction vs with
  | nil => exact List.Perm.refl _
  | cons v vs ih =>
    simp only [List.mem_cons, forall_eq_or_imp] at each
    rw [List.flatMap_cons, List.flatMap_cons, Holding.live_append]
    exact each.1.append (ih each.2)

theorem holdings_perm_containers {v : Value} (sound : v.Sound) :
    v.holdings.Perm (Holding.live v.containers) := by
  induction sound with
  | integer n => exact List.Perm.refl _
  | real x => exact List.Perm.refl _
  | boolean b => exact List.Perm.refl _
  | text sound => exact List.Perm.of_eq (live_buffer _).symm
  | @list l xs holds each ih =>
    have split := Holding.live_append [⟨l.allocator, l.tableBytes⟩] (xs.flatMap containers)
    rw [holdings_list, containers_list, SlotList.elements_eq holds, ← List.singleton_append,
      split, live_table]
    have elements := (holdings_perm_flatMap ih).append_right l.tableHoldings
    exact (ValueList.holdings_perm holds).trans (elements.trans List.perm_append_comm)

theorem givesBack_release {v : Value} (sound : v.Sound) {m : Machine} {others : List Holding}
    (accounts : m.heap.Accounts (v.holdings ++ others)) :
    m.GivesBack v.containers (v.release m) := by
  rw [release_eq_giveBack]
  exact Machine.givesBack_giveBack accounts (holdings_perm_containers sound)

end Value
end TrackedValues
