import TrackedValues.Proofs.Memory.Veil
import TrackedValues.Proofs.SlotList.Recast
import TrackedValues.Proofs.SlotList.Storage

/-!
Tables behind a veil. A slot is smaller on a handle with fewer trackers, so the tables of a list
have other sizes in bytes behind a veil; they have as many slots, and the list grows when it does
in front of the veil.
-/
namespace TrackedValues.Veil
variable {α β : Type} {V : Veil} {m m' : Machine}

def table (V : Veil) (f : α → β) (l : SlotList α) : SlotList β := l.recast V.handle f

variable {f : α → β}

theorem growth_table (V : Veil) (f : α → β) (l : SlotList α) (target : Nat) :
    V = limits → (V.table f l).growth target = l.growth target := by
  rintro rfl
  rfl

theorem tableBytes_table (V : Veil) (f : α → β) (l : SlotList α) :
    V = limits → (V.table f l).tableBytes = l.tableBytes := by
  rintro rfl
  rfl

theorem table_empty (V : Veil) (f : α → β) (a : Allocator) :
    V.table f (.empty a) = .empty (V.handle a) := by
  simp only [table, SlotList.recast, SlotList.map, SlotList.empty, Array.map_empty]

theorem performs_growTable (V : Veil) (f : α → β) (l : SlotList α) (target wanted : Nat)
    (m : Machine) :
    V.Performs id (V.table f) m (l.growTable target wanted m)
      ((V.table f l).growTable target wanted) := by
  unfold Performs
  rcases SlotList.growTable_cases l target wanted m with
    ⟨block, m', addressable, granted, grown⟩ | ⟨m', found, refused⟩
  · have smaller := Nat.mul_le_mul_right target (V.slotSize_handle l.allocator)
    have addressable' : ¬tableMax < (V.table f l).allocator.slotSize * target :=
      Nat.not_lt.mpr (Nat.le_trans smaller addressable)
    have quiet : m'.events = m.events := by rw [← m.request_events l.allocator, granted]
    rw [grown]
    refine ⟨⟨[], quiet.symm⟩, fun _ n hides => ?_⟩
    obtain ⟨n', granted', after⟩ := hides_granted hides (V.growth_table f l target) granted
    have asked : n.request (V.table f l).allocator ((V.table f l).growth target) =
        (some block, n') := granted'
    refine ⟨n', after, ?_⟩
    simp only [SlotList.growTable, addressable', ↓reduceIte, asked]
    rfl
  · have quiet : m'.events = m.events := by
      rcases found with ⟨_, rfl⟩ | found
      · rfl
      · rw [← m.request_events l.allocator, found]
    rw [refused]
    exact follows_refused trivial quiet

theorem performs_reserveSlot (V : Veil) (f : α → β) (l : SlotList α) (m : Machine) :
    V.Performs id (V.table f) m (l.reserveSlot m) (V.table f l).reserveSlot := by
  have free : (V.table f l).free = l.free := rfl
  have size : (V.table f l).slots.size = l.slots.size := l.size_recast
  have capacity : (V.table f l).capacity = l.capacity := rfl
  have next : (V.table f l).nextCapacity = l.nextCapacity := by
    rw [SlotList.nextCapacity, size, capacity]
    rfl
  by_cases roomy : l.Roomy
  · have same : l.reserveSlot m = ⟨.ok (), l, m⟩ := if_pos roomy
    rw [same]
    apply follows_here
    intro n
    rw [SlotList.reserveSlot, free, size, capacity]
    exact if_pos roomy
  · have through : (V.table f l).reserveSlot =
        (V.table f l).growTable l.nextCapacity (l.slots.size + 1) := by
      funext n
      rw [SlotList.reserveSlot, free, size, capacity, next]
      exact if_neg roomy
    rw [SlotList.reserveSlot_full roomy, through]
    exact V.performs_growTable f l l.nextCapacity (l.slots.size + 1) m

theorem answers_withCapacity (V : Veil) (f : α → β) (a : Allocator) (capacity : Nat)
    (m : Machine) :
    V.Answers (Except.map (V.table f)) m (SlotList.withCapacity a capacity m)
      (SlotList.withCapacity (V.handle a) capacity) := by
  by_cases vacant : capacity = 0
  · subst vacant
    apply follows_here
    intro n
    exact congrArg (fun l => (Except.ok l, n)) (V.table_empty f a).symm
  · have grown := V.performs_growTable f (.empty a) (max capacity 4) capacity m
    rw [table_empty] at grown
    simp only [SlotList.withCapacity, vacant, ↓reduceIte]
    generalize (SlotList.empty a : SlotList α).growTable (max capacity 4) capacity m = o at *
    obtain ⟨result, target, m'⟩ := o
    cases result with
    | ok _ =>
      apply follows_map grown
      intro n n' ended
      simp only [SlotList.withCapacity, vacant, ↓reduceIte, ended]
      rfl
    | error e =>
      apply follows_map grown
      intro n n' ended
      simp only [SlotList.withCapacity, vacant, ↓reduceIte, ended]
      rfl

/-- A linking step that commutes with the veil is taken behind it when it is taken in front. -/
theorem performs_pushWith {link : SlotList α → SlotList α} {link' : SlotList β → SlotList β}
    (commutes : ∀ l, V.table f (link l) = link' (V.table f l)) (neighbour : Option Nat)
    (l : SlotList α) (m : Machine) :
    V.Performs id (V.table f) m (SlotList.pushWith link neighbour l m)
      (SlotList.pushWith link' neighbour (V.table f l)) := by
  apply performs_andThen (V.performs_reserveSlot f l m)
  intro _ roomy m'
  have obstacle : (V.table f roomy).linkObstacle? neighbour = roomy.linkObstacle? neighbour :=
    roomy.linkObstacle_recast neighbour
  rw [obstacle]
  cases roomy.linkObstacle? neighbour with
  | some i => exact follows_here fun _ => rfl
  | none =>
    apply follows_here
    intro n
    simp only [commutes]
    rfl

theorem performs_pushBackSlot (V : Veil) (f : α → β) (l : SlotList α) (x : α) (m : Machine) :
    V.Performs id (V.table f) m (l.pushBack x m) ((V.table f l).pushBack (f x)) := by
  refine performs_pushWith ?_ l.tail l m
  intro roomy
  exact roomy.recast_linkBack x

theorem performs_pushFrontSlot (V : Veil) (f : α → β) (l : SlotList α) (x : α) (m : Machine) :
    V.Performs id (V.table f) m (l.pushFront x m) ((V.table f l).pushFront (f x)) := by
  refine performs_pushWith ?_ l.head l m
  intro roomy
  exact roomy.recast_linkFront x

theorem carries_releaseTable (V : Veil) (f : α → β) (l : SlotList α) :
    V.Carries l.releaseTable (V.table f l).releaseTable := by
  by_cases vacant : l.capacity = 0
  · have before : l.releaseTable = id := funext fun _ => if_pos vacant
    have behind : (V.table f l).releaseTable = id := funext fun _ => if_pos vacant
    rw [before, behind]
    exact V.carries_nothing
  · have before : l.releaseTable = (Machine.release · l.allocator l.tableBytes) :=
      funext fun _ => if_neg vacant
    have behind : (V.table f l).releaseTable =
        (Machine.release · (V.handle l.allocator) (V.table f l).tableBytes) :=
      funext fun _ => if_neg vacant
    rw [before, behind]
    exact V.carries_release (V.tableBytes_table f l)

end TrackedValues.Veil
