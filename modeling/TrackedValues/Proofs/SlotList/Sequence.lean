import TrackedValues.Proofs.Memory.Holdings
import TrackedValues.Proofs.SlotList.Walking

/-!
What each operation of a list does to the sequence that the list holds. The only thing an operation
learns from outside is whether the allocator grants a larger table; the slots that elements happen
to occupy never show.
-/
namespace TrackedValues.SlotList
variable {α : Type}

/-- The allocator provides the next larger table, if there can be such a table at all. -/
def Grants (l : SlotList α) (m : Machine) : Prop :=
  l.allocator.slotSize * l.nextCapacity ≤ tableMax ∧
    (m.request l.allocator (l.growth l.nextCapacity)).1.isSome

instance (l : SlotList α) (m : Machine) : Decidable (l.Grants m) :=
  inferInstanceAs (Decidable (_ ∧ _))

/-- The word on storage for one more element: granted, or the size of the table that is missing. -/
def storage (l : SlotList α) (m : Machine) : Except AllocationError Unit :=
  if l.Roomy ∨ l.Grants m then .ok ()
  else .error ⟨saturatingMul l.allocator.slotSize (l.slots.size + 1)⟩

def resized (l : SlotList α) (target : Nat) : SlotList α := { l with capacity := target }

theorem capacity_le_nextCapacity (l : SlotList α) : l.capacity ≤ l.nextCapacity := by
  unfold nextCapacity
  omega

theorem roomy_resized (l : SlotList α) : (l.resized l.nextCapacity).Roomy := by
  right
  simp only [resized, nextCapacity]
  omega

theorem growTable_cases (l : SlotList α) (target wanted : Nat) (m : Machine) :
    (∃ block m', l.allocator.slotSize * target ≤ tableMax ∧
      m.request l.allocator (l.growth target) = (some block, m') ∧
      l.growTable target wanted m = ⟨.ok (), l.resized target, m'⟩) ∨
    (∃ m', (tableMax < l.allocator.slotSize * target ∧ m' = m ∨
        m.request l.allocator (l.growth target) = (none, m')) ∧
      l.growTable target wanted m = l.refuse wanted m') := by
  unfold growTable
  split
  · rename_i excessive
    exact Or.inr ⟨m, Or.inl ⟨excessive, rfl⟩, rfl⟩
  · rename_i addressable
    split
    · rename_i block m' found
      exact Or.inl ⟨block, m', Nat.not_lt.mp addressable, found, rfl⟩
    · rename_i m' found
      exact Or.inr ⟨m', Or.inr found, rfl⟩

theorem reserveSlot_full {l : SlotList α} (full : ¬l.Roomy) (m : Machine) :
    l.reserveSlot m = l.growTable l.nextCapacity (l.slots.size + 1) m := if_neg full

theorem reserveSlot_granted {l : SlotList α} {m : Machine} (granted : l.storage m = .ok ()) :
    ∃ target m', l.capacity ≤ target ∧ (l.resized target).Roomy ∧
      l.reserveSlot m = ⟨.ok (), l.resized target, m'⟩ := by
  by_cases roomy : l.Roomy
  · exact ⟨l.capacity, m, Nat.le_refl _, roomy, if_pos roomy⟩
  · have grants : l.Grants m := by
      by_cases grants : l.Grants m
      · exact grants
      · simp [storage, roomy, grants] at granted
    rw [reserveSlot_full roomy]
    rcases growTable_cases l l.nextCapacity (l.slots.size + 1) m with
      ⟨block, m', _, _, grown⟩ | ⟨m', ⟨excessive, _⟩ | found, _⟩
    · exact ⟨_, m', capacity_le_nextCapacity l, roomy_resized l, grown⟩
    · exact absurd grants.1 (Nat.not_le.mpr excessive)
    · simp [Grants, found] at grants

theorem reserveSlot_refused {l : SlotList α} {m : Machine} {e : AllocationError}
    (refused : l.storage m = .error e) :
    ∃ m', (∀ t, m'.heap.tracker t = m.heap.tracker t) ∧
      l.reserveSlot m = ⟨.error (.allocation e), l, m'⟩ := by
  have full : ¬l.Roomy ∧ ¬l.Grants m := by
    constructor <;> intro provided <;> simp [storage, provided] at refused
  have size : e = ⟨saturatingMul l.allocator.slotSize (l.slots.size + 1)⟩ := by
    simp only [storage, full.1, full.2, or_self, ↓reduceIte, Except.error.injEq] at refused
    exact refused.symm
  rw [reserveSlot_full full.1, size]
  rcases growTable_cases l l.nextCapacity (l.slots.size + 1) m with
    ⟨block, m', addressable, found, _⟩ | ⟨m', found, grown⟩
  · exact absurd ⟨addressable, by simp [found]⟩ full.2
  · refine ⟨_, fun t => ?_, grown⟩
    rcases found with ⟨_, rfl⟩ | found
    · rfl
    · exact Machine.tracker_refused found t

theorem isOccupied_of_mem {l : SlotList α} {nodes : List (Nat × α)} {vacants : List Nat}
    (linked : Linked l nodes vacants) {i : Nat} (member : i ∈ places nodes) : l.IsOccupied i := by
  obtain ⟨node, here, rfl⟩ := List.mem_map.mp member
  obtain ⟨before, after, found⟩ := threaded_occupied linked.leads.2 here
  exact ⟨before, after, node.2, found⟩

theorem dangling?_none {l : SlotList α} {nodes : List (Nat × α)} {vacants : List Nat}
    (linked : Linked l nodes vacants) {link : Option Nat}
    (inside : ∀ i ∈ link, i ∈ places nodes) : l.dangling? link = none := by
  cases link with
  | none => rfl
  | some i => simp [dangling?, isOccupied_of_mem linked (inside i rfl)]

theorem danglingBeside?_none {l : SlotList α} {nodes : List (Nat × α)} {vacants : List Nat}
    (linked : Linked l nodes vacants) {i : Nat} {link : Option Nat}
    (inside : ∀ j ∈ link, j ≠ i ∧ j ∈ places nodes) : l.danglingBeside? i link = none := by
  cases link with
  | none => rfl
  | some j =>
    obtain ⟨other, member⟩ := inside j rfl
    simp [danglingBeside?, other, isOccupied_of_mem linked member]

theorem linkObstacle?_none {l : SlotList α} {nodes : List (Nat × α)} {vacants : List Nat}
    (linked : Linked l nodes vacants) {neighbour : Option Nat}
    (inside : ∀ i ∈ neighbour, i ∈ places nodes) : l.linkObstacle? neighbour = none := by
  have free := linked.free_eq
  rw [linkObstacle?, dangling?_none linked inside, Option.or_none]
  cases vacants with
  | nil => simp [free]
  | cons i rest =>
    have vacant : l.IsVacant i := ⟨_, linked.vacancies.1⟩
    simp [free, vacant]

theorem unlinkObstacle?_none {l : SlotList α} {pre post : List (Nat × α)} {i : Nat} {value : α}
    {vacants : List Nat} (linked : Linked l (pre ++ (i, value) :: post) vacants) :
    l.unlinkObstacle? i (exit none pre) (entry post none) = none := by
  obtain ⟨outside_pre, outside_post⟩ := node_outside (linked_nodup linked)
  have before : l.danglingBeside? i (exit none pre) = none := by
    refine danglingBeside?_none linked fun j member => ?_
    have place := exit_mem pre j member
    refine ⟨fun same => outside_pre (same ▸ place), ?_⟩
    rw [places_append]
    exact List.mem_append_left _ place
  have after : l.danglingBeside? i (entry post none) = none := by
    refine danglingBeside?_none linked fun j member => ?_
    have place := entry_mem post j member
    refine ⟨fun same => outside_post (same ▸ place), ?_⟩
    rw [places_append]
    exact List.mem_append_right _ (List.mem_cons_of_mem i place)
  have len : l.len ≠ 0 := by simp [linked.len_eq, places]
  simp [unlinkObstacle?, before, after, len]

theorem pushWith_granted {l : SlotList α} {nodes : List (Nat × α)} {vacants : List Nat}
    (linked : Linked l nodes vacants) {m : Machine} (granted : l.storage m = .ok ())
    (link : SlotList α → SlotList α) {neighbour : Option Nat}
    (inside : ∀ i ∈ neighbour, i ∈ places nodes) :
    ∃ target m', Linked (l.resized target) nodes vacants ∧ (l.resized target).Roomy ∧
      pushWith link neighbour l m = ⟨.ok (), link (l.resized target), m'⟩ := by
  obtain ⟨target, m', larger, roomy, reserved⟩ := reserveSlot_granted granted
  have wider : Linked (l.resized target) nodes vacants := linked_capacity linked larger
  refine ⟨target, m', wider, roomy, ?_⟩
  simp only [pushWith, reserved, Outcome.andThen, linkObstacle?_none wider inside]

theorem pushWith_refused {l : SlotList α} {m : Machine} {e : AllocationError}
    (refused : l.storage m = .error e) (link : SlotList α → SlotList α)
    (neighbour : Option Nat) :
    ∃ m', (∀ t, m'.heap.tracker t = m.heap.tracker t) ∧
      pushWith link neighbour l m = ⟨.error (.allocation e), l, m'⟩ := by
  obtain ⟨m', same, reserved⟩ := reserveSlot_refused refused
  exact ⟨m', same, by simp only [pushWith, reserved, Outcome.andThen]⟩

theorem pushBack_granted {l : SlotList α} {xs : List α} (holds : Holds l xs) {m : Machine}
    (granted : l.storage m = .ok ()) (value : α) :
    (l.pushBack value m).result = .ok () ∧ Holds (l.pushBack value m).target (xs ++ [value]) := by
  obtain ⟨nodes, vacants, linked, rfl⟩ := holds
  have inside : ∀ i ∈ l.tail, i ∈ places nodes := fun i member =>
    exit_mem nodes i (linked.trails.1.symm.trans member)
  obtain ⟨target, m', wider, roomy, pushed⟩ :=
    pushWith_granted linked granted (·.linkBack value) inside
  rw [pushBack, pushed]
  refine ⟨rfl, _, _, linked_linkBack wider roomy value, ?_⟩
  simp [values]

theorem pushFront_granted {l : SlotList α} {xs : List α} (holds : Holds l xs) {m : Machine}
    (granted : l.storage m = .ok ()) (value : α) :
    (l.pushFront value m).result = .ok () ∧ Holds (l.pushFront value m).target (value :: xs) := by
  obtain ⟨nodes, vacants, linked, rfl⟩ := holds
  have inside : ∀ i ∈ l.head, i ∈ places nodes := fun i member =>
    entry_mem nodes i (linked.leads.1.symm.trans member)
  obtain ⟨target, m', wider, roomy, pushed⟩ :=
    pushWith_granted linked granted (·.linkFront value) inside
  rw [pushFront, pushed]
  exact ⟨rfl, _, _, linked_linkFront wider roomy value, rfl⟩

theorem unlink_linked {l : SlotList α} {pre post : List (Nat × α)} {i : Nat} {value : α}
    {vacants : List Nat} (linked : Linked l (pre ++ (i, value) :: post) vacants) :
    l.unlink i = (.ok value, l.detach i (exit none pre) (entry post none)) := by
  simp only [unlink, node_at linked.leads.2, unlinkObstacle?_none linked]

theorem holds_detach {l : SlotList α} {pre post : List (Nat × α)} {i : Nat} {value : α}
    {vacants : List Nat} (linked : Linked l (pre ++ (i, value) :: post) vacants) :
    Holds (l.detach i (exit none pre) (entry post none)) (values (pre ++ post)) :=
  holds_of_linked (linked_detach linked)

theorem popFront_eq {l : SlotList α} {xs : List α} (holds : Holds l xs) :
    l.popFront.1 = .ok xs.head? ∧ Holds l.popFront.2 xs.tail := by
  obtain ⟨nodes, vacants, linked, rfl⟩ := holds
  have head := linked.leads.1
  cases nodes with
  | nil =>
    have empty : l.head = none := head
    rw [popFront, empty]
    exact ⟨rfl, holds_of_linked linked⟩
  | cons node rest =>
    have first : l.head = some node.1 := head
    have linked : Linked l ([] ++ node :: rest) vacants := linked
    have unlinked := unlink_linked linked
    have left := holds_detach linked
    simp only [popFront, first, popAt, unlinked]
    exact ⟨rfl, left⟩

theorem popBack_eq {l : SlotList α} {xs : List α} (holds : Holds l xs) :
    l.popBack.1 = .ok xs.getLast? ∧ Holds l.popBack.2 xs.dropLast := by
  obtain ⟨nodes, vacants, linked, rfl⟩ := holds
  have tail := linked.trails.1
  rcases nodes.eq_nil_or_concat with rfl | ⟨init, node, rfl⟩
  · have empty : l.tail = none := tail
    rw [popBack, empty]
    exact ⟨rfl, holds_of_linked linked⟩
  · rw [List.concat_eq_append] at *
    have last : l.tail = some node.1 := tail.trans (by simp [exit_append, exit])
    have unlinked := unlink_linked linked
    have left := holds_detach linked
    simp only [popBack, last, popAt, unlinked]
    constructor
    · change Except.ok (some node.2) = _
      simp [values]
    · simpa [values] using left

theorem split_at (nodes : List (Nat × α)) {position : Nat} (inside : position < nodes.length) :
    ∃ pre i value post, nodes = pre ++ (i, value) :: post ∧ pre.length = position := by
  refine ⟨nodes.take position, nodes[position].1, nodes[position].2,
    nodes.drop (position + 1), ?_, ?_⟩
  · have whole := List.take_append_drop position nodes
    rw [← List.getElem_cons_drop inside] at whole
    exact whole.symm
  · rw [List.length_take]
    omega

theorem remove_inside {l : SlotList α} {xs : List α} (holds : Holds l xs) {position : Nat}
    (inside : position < xs.length) (m : Machine) :
    (l.remove position m).result = .ok xs[position] ∧
      Holds (l.remove position m).target (xs.eraseIdx position) := by
  obtain ⟨nodes, vacants, linked, rfl⟩ := holds
  have found := slotAt_linked linked position
  obtain ⟨pre, i, value, post, rfl, rfl⟩ := split_at nodes (by simpa [values] using inside)
  have slot : l.slotAt pre.length = .ok (some i) := by simpa [places] using found
  simp only [remove, slot, unlink_linked linked]
  have left := holds_detach linked
  refine ⟨by simp [values], ?_⟩
  simpa [values, List.eraseIdx_append_of_length_le] using left

theorem remove_outside {l : SlotList α} {xs : List α} (holds : Holds l xs) {position : Nat}
    (outside : xs.length ≤ position) (m : Machine) :
    l.remove position m = ⟨.error (.indexOutOfRange position xs.length), l, m⟩ := by
  have len := len_eq_length holds
  have nowhere : l.slotAt position = .ok none := by
    rw [slotAt, if_pos (by omega)]
  simp only [remove, nowhere, len]

theorem setValue_inside {l : SlotList α} {xs : List α} (holds : Holds l xs) {position : Nat}
    (inside : position < xs.length) :
    ∃ i, l.slotAt position = .ok (some i) ∧ l.valueAt i = .ok xs[position] ∧
      ∀ value, Holds (l.setValue i value) (xs.set position value) := by
  obtain ⟨nodes, vacants, linked, rfl⟩ := holds
  have found := slotAt_linked linked position
  obtain ⟨pre, i, old, post, rfl, rfl⟩ := split_at nodes (by simpa [values] using inside)
  refine ⟨i, by simpa [places] using found, ?_, fun value => ?_⟩
  · rw [valueAt_at linked.leads.2]
    simp [values]
  · have changed := holds_of_linked (linked_setValue linked value)
    simpa [values] using changed

theorem setValue_self {l : SlotList α} {i : Nat} {value : α} (here : l.valueAt i = .ok value) :
    l.setValue i value = l := by
  have slots : l.slots.modify i (Slot.withValue value) = l.slots := by
    apply Array.ext_getElem?
    intro j
    simp only [Array.getElem?_modify]
    split
    · rename_i same
      subst same
      simp only [valueAt, node] at here
      rcases found : l.slots[i]? with - | s
      · rfl
      · cases s with
        | vacant nextFree => rfl
        | occupied prev next old =>
          rw [found] at here
          obtain rfl := Except.ok.inj here
          rfl
    · rfl
  rw [setValue, slots]

theorem slotAt_outside {l : SlotList α} {xs : List α} (holds : Holds l xs) {position : Nat}
    (outside : xs.length ≤ position) : l.slotAt position = .ok none := by
  rw [slotAt, if_pos (by rw [len_eq_length holds]; exact outside)]

theorem holds_clear (l : SlotList α) : Holds l.clear [] := holds_of_linked (linked_clear l)

theorem holds_empty (a : Allocator) : Holds (empty a : SlotList α) [] :=
  holds_of_linked (linked_empty a)

end TrackedValues.SlotList
