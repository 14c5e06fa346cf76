import TrackedValues.Proofs.SlotList.Sequence

/-!
The representation invariant slot by slot. The occupied slots have an order in which every link to
the next slot has its inverse, and the vacant slots have an order of their own; both are exhausted
by following the links, and no link leaves the table.
-/
namespace TrackedValues

def Slot.links {α : Type} : Slot α → List Nat
  | .occupied prev next _ => prev.toList ++ next.toList
  | .vacant nextFree => nextFree.toList

namespace SlotList
variable {α : Type}

def links (l : SlotList α) : List Nat :=
  l.head.toList ++ l.tail.toList ++ l.free.toList ++ l.slots.toList.flatMap Slot.links

def precursor (order : List Nat) : Nat → Option Nat
  | 0 => none
  | k + 1 => order[k]?

/-- The list leads through its occupied slots and its vacant slots in these orders. -/
structure WellLinked (l : SlotList α) (order vacants : List Nat) : Prop where
  head_eq : l.head = order.head?
  tail_eq : l.tail = order.getLast?
  linked : ∀ k (inside : k < order.length), ∃ value,
    l.slots[order[k]]? = some (.occupied (precursor order k) order[k + 1]? value)
  nodup : order.Nodup
  occupied_iff : ∀ i, l.IsOccupied i ↔ i ∈ order
  walked : l.chainFrom (l.slots.size + 1) l.head = order
  free_eq : l.free = vacants.head?
  chained : ∀ k (inside : k < vacants.length),
    l.slots[vacants[k]]? = some (.vacant vacants[k + 1]?)
  vacants_nodup : vacants.Nodup
  vacant_iff : ∀ i, l.IsVacant i ↔ i ∈ vacants
  len_eq : l.len = order.length
  counted : l.len = l.stored.length
  inside : ∀ i ∈ l.links, i < l.slots.size
  forgotten : l.len = 0 → l.slots.size = 0 ∧ l.head = none ∧ l.tail = none ∧ l.free = none

theorem slot_cases {l : SlotList α} {taken vacants : List Nat} (tiled : Tiled l taken vacants)
    {i : Nat} (inside : i < l.slots.size) : i ∈ taken ∨ i ∈ vacants :=
  List.mem_append.mp (tiled.covers.symm.subset (List.mem_range.mpr inside))

theorem occupied_iff_mem {l : SlotList α} {nodes : List (Nat × α)} {vacants : List Nat}
    (linked : Linked l nodes vacants) (i : Nat) : l.IsOccupied i ↔ i ∈ places nodes := by
  constructor
  · rintro ⟨prev, next, value, found⟩
    obtain ⟨inside, _⟩ := Array.getElem?_eq_some_iff.mp found
    rcases slot_cases linked.toTiled inside with taken | vacant
    · exact taken
    · obtain ⟨nextFree, other⟩ := vacancies_vacant linked.vacancies vacant
      rw [found] at other
      cases other
  · exact isOccupied_of_mem linked

theorem vacant_iff_mem {l : SlotList α} {nodes : List (Nat × α)} {vacants : List Nat}
    (linked : Linked l nodes vacants) (i : Nat) : l.IsVacant i ↔ i ∈ vacants := by
  constructor
  · rintro ⟨nextFree, found⟩
    obtain ⟨inside, _⟩ := Array.getElem?_eq_some_iff.mp found
    rcases slot_cases linked.toTiled inside with taken | vacant
    · obtain ⟨prev, next, value, other⟩ := isOccupied_of_mem linked taken
      rw [found] at other
      cases other
    · exact vacant
  · exact vacancies_vacant linked.vacancies

theorem linked_at {l : SlotList α} {nodes : List (Nat × α)} {vacants : List Nat}
    (linked : Linked l nodes vacants) (k : Nat) (inside : k < (places nodes).length) :
    ∃ value, l.slots[(places nodes)[k]]? =
      some (.occupied (precursor (places nodes) k) (places nodes)[k + 1]? value) := by
  obtain ⟨pre, i, value, post, rfl, rfl⟩ := split_at nodes (by simpa [places] using inside)
  have found := threaded_at linked.leads.2
  have len : (places pre).length = pre.length := by simp [places]
  have split : places (pre ++ (i, value) :: post) = places pre ++ i :: places post :=
    places_append pre _
  have before : exit none pre = precursor (places (pre ++ (i, value) :: post)) pre.length := by
    rw [exit_eq_getLast?, split, List.getLast?_eq_getElem?, len]
    cases size : pre.length with
    | zero => simp [precursor, List.length_eq_zero_iff.mp size, places]
    | succ n => simp [precursor, List.getElem?_append_left, len, size]
  have after : entry post none = (places (pre ++ (i, value) :: post))[pre.length + 1]? := by
    rw [entry_eq_head?, split, List.getElem?_append_right (by omega), len,
      Nat.add_sub_cancel_left, List.getElem?_cons_succ, List.head?_eq_getElem?]
  refine ⟨value, ?_⟩
  rw [← before, ← after]
  simpa [split, ← len] using found

theorem vacancies_at {slots : Array (Slot α)} {vacants : List Nat}
    (vacancies : Vacancies slots vacants) (k : Nat) (inside : k < vacants.length) :
    slots[vacants[k]]? = some (.vacant vacants[k + 1]?) := by
  induction vacants generalizing k with
  | nil => simp at inside
  | cons i rest ih =>
    cases k with
    | zero =>
      rw [List.getElem_cons_zero, vacancies.1, List.head?_eq_getElem?]
      rfl
    | succ k => exact ih vacancies.2 k (Nat.lt_of_succ_lt_succ inside)

theorem precursor_mem {order : List Nat} {k i : Nat} (found : precursor order k = some i) :
    i ∈ order := by
  cases k with
  | zero => simp [precursor] at found
  | succ k => exact List.mem_of_getElem? found

theorem links_inside {l : SlotList α} {nodes : List (Nat × α)} {vacants : List Nat}
    (linked : Linked l nodes vacants) {i : Nat} (member : i ∈ l.links) : i < l.slots.size := by
  have taken : ∀ {j}, j ∈ places nodes → j < l.slots.size := fun here =>
    tiled_bound linked.toTiled (List.mem_append_left _ here)
  have vacant : ∀ {j}, j ∈ vacants → j < l.slots.size := fun here =>
    tiled_bound linked.toTiled (List.mem_append_right _ here)
  simp only [links, List.mem_append, List.mem_flatMap, Option.mem_toList, or_assoc] at member
  rcases member with head | tail | free | ⟨s, inside, link⟩
  · exact taken (entry_mem nodes i (linked.leads.1.symm.trans head))
  · exact taken (exit_mem nodes i (linked.trails.1.symm.trans tail))
  · exact vacant (List.mem_of_mem_head? (linked.free_eq.symm.trans free))
  · obtain ⟨j, bound, found⟩ := Array.getElem_of_mem (Array.mem_toList_iff.mp inside)
    have found : l.slots[j]? = some s := by rw [Array.getElem?_eq_getElem bound, found]
    rcases slot_cases linked.toTiled bound with here | here
    · obtain ⟨k, small, rfl⟩ := List.getElem_of_mem here
      obtain ⟨value, occupied⟩ := linked_at linked k small
      rw [found] at occupied
      cases occupied
      simp only [Slot.links, List.mem_append, Option.mem_toList] at link
      rcases link with prev | next
      · exact taken (precursor_mem prev)
      · exact taken (List.mem_of_getElem? next)
    · obtain ⟨k, small, rfl⟩ := List.getElem_of_mem here
      have chained := vacancies_at linked.vacancies k small
      rw [found] at chained
      cases chained
      simp only [Slot.links, Option.mem_toList] at link
      exact vacant (List.mem_of_getElem? link)

theorem wellLinked_of_linked {l : SlotList α} {nodes : List (Nat × α)} {vacants : List Nat}
    (linked : Linked l nodes vacants) : WellLinked l (places nodes) vacants where
  head_eq := linked.leads.1.trans (entry_eq_head? nodes)
  tail_eq := linked.trails.1.trans (exit_eq_getLast? nodes)
  linked := linked_at linked
  nodup := linked_nodup linked
  occupied_iff := occupied_iff_mem linked
  walked := chainFrom_linked linked
  free_eq := linked.free_eq
  chained := vacancies_at linked.vacancies
  vacants_nodup := (List.nodup_append.mp (tiled_nodup linked.toTiled)).2.1
  vacant_iff := vacant_iff_mem linked
  len_eq := linked.len_eq
  counted := by
    have holds := holds_of_linked linked
    rw [len_eq_length holds, (stored_perm holds).length_eq]
  inside _ member := links_inside linked member
  forgotten vacated := by
    have len := linked.len_eq
    have none_left : nodes = [] := by
      apply List.length_eq_zero_iff.mp
      simpa [places, vacated] using len.symm
    have shared := linked.covers.length_eq
    rw [linked.forgotten none_left, none_left] at shared
    refine ⟨by simpa [places] using shared.symm, ?_, ?_, ?_⟩
    · rw [linked.leads.1, none_left]
      rfl
    · rw [linked.trails.1, none_left]
      rfl
    · rw [linked.free_eq, linked.forgotten none_left]
      rfl

end SlotList
end TrackedValues
