import TrackedValues.Proofs.SlotList.Division

/-!
How much of its table a list uses. A list whose length has not reached its capacity has a slot for
one more element, vacant or new; only a full one needs a wider table. Taking elements out leaves
the table as it is, until the last one is gone.
-/
namespace TrackedValues.SlotList
variable {α : Type} {l : SlotList α} {xs : List α}

theorem size_linked {nodes : List (Nat × α)} {vacants : List Nat}
    (linked : Linked l nodes vacants) : l.slots.size = l.len + vacants.length := by
  have length := linked.covers.length_eq
  rw [List.length_append, List.length_range, ← linked.len_eq] at length
  exact length.symm

theorem size_of_empty (holds : Holds l xs) (empty : l.len = 0) : l.slots.size = 0 := by
  obtain ⟨nodes, vacants, linked, _⟩ := holds
  have no_nodes : nodes = [] := by
    have len := linked.len_eq
    rw [empty, places, List.length_map] at len
    exact List.length_eq_zero_iff.mp len.symm
  rw [size_linked linked, linked.forgotten no_nodes, empty, List.length_nil]

theorem len_le_size (holds : Holds l xs) : l.len ≤ l.slots.size := by
  obtain ⟨nodes, vacants, linked, _⟩ := holds
  rw [size_linked linked]
  exact Nat.le_add_right _ _

theorem size_le_capacity (holds : Holds l xs) : l.slots.size ≤ l.capacity := by
  obtain ⟨nodes, vacants, linked, _⟩ := holds
  exact linked.fits

theorem roomy_iff (holds : Holds l xs) : l.Roomy ↔ l.len < l.capacity := by
  obtain ⟨nodes, vacants, linked, _⟩ := holds
  have size := size_linked linked
  have fits := linked.fits
  have free := linked.free_eq
  cases vacants with
  | nil =>
    have none_free : l.free = none := free
    simp only [Roomy, none_free, Option.isSome_none, Bool.false_eq_true, false_or]
    rw [size, List.length_nil, Nat.add_zero]
  | cons i rest =>
    have first_free : l.free = some i := free
    have spare : l.len < l.capacity := by
      rw [List.length_cons] at size
      omega
    exact ⟨fun _ => spare, fun _ => Or.inl (by rw [first_free, Option.isSome_some])⟩

theorem size_of_full (holds : Holds l xs) (full : l.len = l.capacity) : l.slots.size = l.len := by
  have least := len_le_size holds
  have most := size_le_capacity holds
  omega

theorem nextCapacity_of_full (holds : Holds l xs) (full : l.len = l.capacity) :
    l.nextCapacity = max (2 * l.capacity) 4 := by
  unfold nextCapacity
  rw [size_of_full holds full, full]
  omega

def link : Side → SlotList α → α → SlotList α
  | .front, l, value => l.linkFront value
  | .back, l, value => l.linkBack value

def push : Side → SlotList α → α → Machine → Outcome Error (SlotList α) Unit
  | .front, l, value, m => l.pushFront value m
  | .back, l, value, m => l.pushBack value m

theorem place_table (l : SlotList α) (prev next : Option Nat) (value : α) :
    (l.place prev next value).allocator = l.allocator ∧
      (l.place prev next value).capacity = l.capacity ∧
      (l.place prev next value).len = l.len + 1 := by
  unfold place
  split <;> exact ⟨rfl, rfl, rfl⟩

theorem setNextOrHead_table (l : SlotList α) (place link : Option Nat) :
    (l.setNextOrHead place link).allocator = l.allocator ∧
      (l.setNextOrHead place link).capacity = l.capacity ∧
      (l.setNextOrHead place link).len = l.len ∧
      (l.setNextOrHead place link).slots.size = l.slots.size := by
  cases place with
  | none => exact ⟨rfl, rfl, rfl, rfl⟩
  | some i => exact ⟨rfl, rfl, rfl, Array.size_modify⟩

theorem setPrevOrTail_table (l : SlotList α) (place link : Option Nat) :
    (l.setPrevOrTail place link).allocator = l.allocator ∧
      (l.setPrevOrTail place link).capacity = l.capacity ∧
      (l.setPrevOrTail place link).len = l.len ∧
      (l.setPrevOrTail place link).slots.size = l.slots.size := by
  cases place with
  | none => exact ⟨rfl, rfl, rfl, rfl⟩
  | some i => exact ⟨rfl, rfl, rfl, Array.size_modify⟩

theorem link_table (s : Side) (l : SlotList α) (value : α) :
    (link s l value).allocator = l.allocator ∧ (link s l value).capacity = l.capacity ∧
      (link s l value).len = l.len + 1 := by
  cases s with
  | front =>
    obtain ⟨allocator, capacity, len⟩ := place_table l none l.head value
    obtain ⟨allocator', capacity', len', _⟩ :=
      setPrevOrTail_table (l.place none l.head value) l.head (some l.nextSlot)
    exact ⟨allocator'.trans allocator, capacity'.trans capacity, len'.trans len⟩
  | back =>
    obtain ⟨allocator, capacity, len⟩ := place_table l l.tail none value
    obtain ⟨allocator', capacity', len', _⟩ :=
      setNextOrHead_table (l.place l.tail none value) l.tail (some l.nextSlot)
    exact ⟨allocator'.trans allocator, capacity'.trans capacity, len'.trans len⟩

theorem size_link (holds : Holds l xs) (spare : l.len < l.capacity) (s : Side) (value : α) :
    (link s l value).slots.size = max (l.len + 1) l.slots.size := by
  have roomy := (roomy_iff holds).mpr spare
  obtain ⟨nodes, vacants, linked, _⟩ := holds
  have after : ∃ nodes', Linked (link s l value) nodes' vacants.tail := by
    cases s with
    | front => exact ⟨_, linked_linkFront linked roomy value⟩
    | back => exact ⟨_, linked_linkBack linked roomy value⟩
  obtain ⟨nodes', linked'⟩ := after
  rw [size_linked linked', size_linked linked, (link_table s l value).2.2, List.length_tail]
  omega

theorem holds_resized (holds : Holds l xs) {target : Nat} (larger : l.capacity ≤ target) :
    Holds (l.resized target) xs := by
  obtain ⟨nodes, vacants, linked, rfl⟩ := holds
  exact holds_of_linked (linked_capacity linked larger)

/-- A list that holds a sequence has no obstacles: a push fails for want of a slot only. -/
theorem push_eq (holds : Holds l xs) (s : Side) (value : α) (m : Machine) :
    push s l value m =
      (l.reserveSlot m).andThen fun _ roomy m => ⟨.ok (), link s roomy value, m⟩ := by
  obtain ⟨nodes, vacants, linked, _⟩ := holds
  have pushed : ∀ (linking : SlotList α → SlotList α) (neighbour : Option Nat),
      (∀ i ∈ neighbour, i ∈ places nodes) → pushWith linking neighbour l m =
        (l.reserveSlot m).andThen fun _ roomy m => ⟨.ok (), linking roomy, m⟩ := by
    intro linking neighbour inside
    cases word : l.storage m with
    | ok _ =>
      obtain ⟨target, m', larger, _, reserved⟩ := reserveSlot_granted word
      have wider : Linked (l.resized target) nodes vacants := linked_capacity linked larger
      simp only [pushWith, reserved, Outcome.andThen, linkObstacle?_none wider inside]
    | error e =>
      obtain ⟨m', _, reserved⟩ := reserveSlot_refused word
      simp only [pushWith, reserved, Outcome.andThen]
  cases s with
  | front =>
    exact pushed (·.linkFront value) l.head fun i member =>
      entry_mem nodes i (linked.leads.1.symm.trans member)
  | back =>
    exact pushed (·.linkBack value) l.tail fun i member =>
      exit_mem nodes i (linked.trails.1.symm.trans member)

theorem push_spare (holds : Holds l xs) (spare : l.len < l.capacity) (s : Side) (value : α)
    (m : Machine) : push s l value m = ⟨.ok (), link s l value, m⟩ := by
  have reserved : l.reserveSlot m = ⟨.ok (), l, m⟩ := if_pos ((roomy_iff holds).mpr spare)
  rw [push_eq holds, reserved]
  rfl

theorem push_full (holds : Holds l xs) (full : l.len = l.capacity) (s : Side) (value : α)
    (m : Machine) : push s l value m =
      (l.growTable (max (2 * l.capacity) 4) (l.len + 1) m).andThen fun _ wider m =>
        ⟨.ok (), link s wider value, m⟩ := by
  have no_room : ¬l.Roomy := by
    rw [roomy_iff holds]
    omega
  rw [push_eq holds, reserveSlot_full no_room, nextCapacity_of_full holds full,
    size_of_full holds full]

structure Retains (l l' : SlotList α) : Prop where
  allocator : l'.allocator = l.allocator
  capacity : l'.capacity = l.capacity
  size : l'.slots.size = if l'.len = 0 then 0 else l.slots.size

theorem retains_refl (holds : Holds l xs) : Retains l l where
  allocator := rfl
  capacity := rfl
  size := by
    split
    · rename_i empty
      exact size_of_empty holds empty
    · rfl

theorem retains_setValue (holds : Holds l xs) (i : Nat) (value : α) :
    Retains l (l.setValue i value) where
  allocator := rfl
  capacity := rfl
  size := Array.size_modify.trans (retains_refl holds).size

theorem retains_clear (l : SlotList α) : Retains l l.clear := ⟨rfl, rfl, rfl⟩

theorem retains_forgetIfEmpty (l : SlotList α) : Retains l l.forgetIfEmpty := by
  by_cases empty : l.len = 0
  · have forgotten : l.forgetIfEmpty = { l with slots := #[], free := none } := if_pos empty
    rw [forgotten]
    exact ⟨rfl, rfl, (if_pos empty).symm⟩
  · have same : l.forgetIfEmpty = l := if_neg empty
    rw [same]
    exact ⟨rfl, rfl, (if_neg empty).symm⟩

theorem retains_detach (l : SlotList α) (i : Nat) (prev next : Option Nat) :
    Retains l (l.detach i prev next) := by
  obtain ⟨allocator, capacity, _, size⟩ := setNextOrHead_table (l.vacate i) prev next
  obtain ⟨allocator', capacity', _, size'⟩ :=
    setPrevOrTail_table ((l.vacate i).setNextOrHead prev next) next prev
  have forgotten :=
    retains_forgetIfEmpty (((l.vacate i).setNextOrHead prev next).setPrevOrTail next prev)
  rw [← detach] at forgotten
  constructor
  · exact forgotten.allocator.trans (allocator'.trans allocator)
  · exact forgotten.capacity.trans (capacity'.trans capacity)
  · rw [forgotten.size, size', size]
    simp only [vacate, Array.size_setIfInBounds]

theorem retains_unlink (holds : Holds l xs) (i : Nat) : Retains l (l.unlink i).2 := by
  unfold unlink
  split
  · exact retains_refl holds
  · split
    · exact retains_refl holds
    · exact retains_detach l i _ _

theorem retains_popAt (holds : Holds l xs) (place : Option Nat) : Retains l (l.popAt place).2 := by
  cases place with
  | none => exact retains_refl holds
  | some i => exact retains_unlink holds i

theorem retains_remove (holds : Holds l xs) (position : Nat) (m : Machine) :
    Retains l (l.remove position m).target := by
  unfold remove
  split
  · exact retains_refl holds
  · exact retains_refl holds
  · rename_i i _
    have unlinked := retains_unlink holds i
    dsimp only
    split
    · exact unlinked
    · exact unlinked

theorem retains_call {d : Drain α} (holds : Holds d.list xs) (s : Side) :
    Retains d.list (d.call s).2.list := by
  cases s with
  | front => exact retains_popAt holds d.list.head
  | back => exact retains_popAt holds d.list.tail

end TrackedValues.SlotList
