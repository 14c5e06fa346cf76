import TrackedValues.Proofs.Memory.Asking
import TrackedValues.Proofs.SlotList.Occupancy
import TrackedValues.Proofs.ValueList.Refinement

/-!
The tables of lists over time. A table has as many slots as its list has had elements at once since
it was last empty, and it grows only when the list has reached its capacity: to twice that, or to
four slots. So the history of the lengths of a list bounds its storage.
-/
namespace TrackedValues
namespace SlotList
variable {α : Type} {l : SlotList α} {xs : List α}

/-- The table has no slot left, and there can be a table of twice its slots, or of four. -/
def Widens (l : SlotList α) : Prop :=
  l.len = l.capacity ∧ l.allocator.slotSize * max (2 * l.capacity) 4 ≤ tableMax

theorem asksFor_push (holds : Holds l xs) (widens : l.Widens) (s : Side) (value : α) :
    AsksFor l.allocator (l.growth (max (2 * l.capacity) 4)) (push s l value) := by
  obtain ⟨full, addressable⟩ := widens
  apply AsksFor.of_answers
  intro m
  rw [push_full holds full]
  rcases growTable_cases l (max (2 * l.capacity) 4) (l.len + 1) m with
    ⟨block, m', _, granted, grown⟩ | ⟨m', ⟨excessive, _⟩ | refused, grown⟩
  · rw [grown]
    exact Or.inl ⟨block, m', (), granted, rfl, rfl⟩
  · exact absurd addressable (Nat.not_le.mpr excessive)
  · rw [grown]
    exact Or.inr ⟨m', _, refused, rfl, rfl⟩

theorem push_excessive (holds : Holds l xs) (full : l.len = l.capacity)
    (excessive : tableMax < l.allocator.slotSize * max (2 * l.capacity) 4) (s : Side) (value : α)
    (m : Machine) : push s l value m = l.refuse (l.len + 1) m := by
  have refused : l.growTable (max (2 * l.capacity) 4) (l.len + 1) m = l.refuse (l.len + 1) m :=
    if_pos excessive
  rw [push_full holds full, refused]
  rfl

theorem spare_of_not_full (holds : Holds l xs) (other : l.len ≠ l.capacity) :
    l.len < l.capacity :=
  Nat.lt_of_le_of_ne (Nat.le_trans (len_le_size holds) (size_le_capacity holds)) other

theorem asksNothing_push (holds : Holds l xs) (narrow : ¬l.Widens) (s : Side) (value : α) :
    AsksNothing (push s l value) := by
  intro m
  by_cases full : l.len = l.capacity
  · have excessive := Nat.not_le.mp fun addressable => narrow ⟨full, addressable⟩
    rw [push_excessive holds full excessive]
    rfl
  · rw [push_spare holds (spare_of_not_full holds full)]

theorem push_cases (holds : Holds l xs) (s : Side) (value : α) (m : Machine) :
    (∃ m', l.len < l.capacity ∧ push s l value m = ⟨.ok (), link s l value, m'⟩) ∨
    (∃ m', l.len = l.capacity ∧ push s l value m =
      ⟨.ok (), link s (l.resized (max (2 * l.capacity) 4)) value, m'⟩) ∨
    (∃ m', l.len = l.capacity ∧ push s l value m =
      ⟨.error (.allocation ⟨saturatingMul l.allocator.slotSize (l.len + 1)⟩), l, m'⟩) := by
  by_cases full : l.len = l.capacity
  · rw [push_full holds full]
    rcases growTable_cases l (max (2 * l.capacity) 4) (l.len + 1) m with
      ⟨block, m', _, _, grown⟩ | ⟨m', _, grown⟩
    · rw [grown]
      exact Or.inr (Or.inl ⟨m', full, rfl⟩)
    · rw [grown]
      exact Or.inr (Or.inr ⟨_, full, rfl⟩)
  · have spare := spare_of_not_full holds full
    exact Or.inl ⟨m, spare, push_spare holds spare s value m⟩

structure Steps (l l' : SlotList α) : Prop where
  allocator : l'.allocator = l.allocator
  capacity : l'.capacity = l.capacity ∨
    l.len = l.capacity ∧ l'.len = l.len + 1 ∧ l'.capacity = max (2 * l.capacity) 4
  size : l'.slots.size = if l'.len = 0 then 0 else max l'.len l.slots.size

theorem Retains.steps {l' : SlotList α} {xs' : List α} (retains : Retains l l')
    (after : Holds l' xs') : Steps l l' where
  allocator := retains.allocator
  capacity := Or.inl retains.capacity
  size := by
    have size := retains.size
    have bound := len_le_size after
    split at size
    · rename_i empty
      rw [size, if_pos empty]
    · rename_i more
      rw [size, if_neg more]
      omega

theorem steps_push (holds : Holds l xs) (s : Side) (value : α) (m : Machine) :
    Steps l (push s l value m).target := by
  rcases push_cases holds s value m with ⟨m', spare, pushed⟩ | ⟨m', full, pushed⟩ |
    ⟨m', full, pushed⟩
  · obtain ⟨allocator, capacity, len⟩ := link_table s l value
    rw [pushed]
    refine ⟨allocator, Or.inl capacity, ?_⟩
    dsimp only
    rw [len, if_neg (Nat.succ_ne_zero _)]
    exact size_link holds spare s value
  · have larger : l.capacity ≤ max (2 * l.capacity) 4 := by omega
    have spare : l.len < max (2 * l.capacity) 4 := by omega
    obtain ⟨allocator, capacity, len⟩ := link_table s (l.resized (max (2 * l.capacity) 4)) value
    rw [pushed]
    refine ⟨allocator, Or.inr ⟨full, len, capacity⟩, ?_⟩
    dsimp only
    rw [len, if_neg (Nat.succ_ne_zero _)]
    exact size_link (holds_resized holds larger) spare s value
  · rw [pushed]
    exact (retains_refl holds).steps holds

end SlotList

namespace ValueList

def push : Side → ValueList → Value → Machine → Outcome Error ValueList Unit
  | .front, l, v, m => pushFront l v m
  | .back, l, v, m => pushBack l v m

theorem push_eq_keepOrRelease (s : Side) (l : ValueList) (v : Value) (m : Machine) :
    push s l v m = keepOrRelease v (SlotList.push s l v m) := by
  cases s <;> rfl

theorem retains_overwriteAt {l : ValueList} {xs : List Value} (holds : SlotList.Holds l xs)
    (position : Nat) (v : Value) (m : Machine) :
    SlotList.Retains l (overwriteAt l position v m).target := by
  unfold overwriteAt
  split
  · exact SlotList.retains_refl holds
  · exact SlotList.retains_refl holds
  · split
    · exact SlotList.retains_refl holds
    · exact SlotList.retains_setValue holds _ v

theorem steps_perform {l : ValueList} {xs : List Value} (holds : SlotList.Holds l xs) (m : Machine)
    (action : Action Value) : SlotList.Steps l (perform l m action).2.1 := by
  have after := (perform_holds holds m action).2
  have same : SlotList.Steps l l := (SlotList.retains_refl holds).steps holds
  cases action with
  | pushBack v =>
    have pushed := SlotList.steps_push holds .back v m
    simp only [perform, pushBack, keepOrRelease_target]
    exact pushed
  | pushFront v =>
    have pushed := SlotList.steps_push holds .front v m
    simp only [perform, pushFront, keepOrRelease_target]
    exact pushed
  | popFront => exact (SlotList.retains_popAt holds l.head).steps after
  | popBack => exact (SlotList.retains_popAt holds l.tail).steps after
  | remove position => exact (SlotList.retains_remove holds position m).steps after
  | overwrite position v => exact (retains_overwriteAt holds position v m).steps after
  | clear => exact (SlotList.retains_clear l).steps after
  | get position => exact same
  | front => exact same
  | back => exact same
  | len => exact same
  | isEmpty => exact same

/-- The most elements there have been since a list was last empty. -/
def recentPeak : List Nat → Nat
  | [] => 0
  | n :: earlier => if n = 0 then 0 else max n (recentPeak earlier)

def peak (lengths : List Nat) : Nat := lengths.foldr max 0

/--
A list as operations make it, with the capacity it was built with and the lengths it has had, the
newest first.
-/
inductive Lived : Nat → List Nat → ValueList → Prop
  | fresh {l : ValueList} (fresh : Fresh l) : Lived l.capacity [0] l
  | step {initial : Nat} {lengths : List Nat} {l : ValueList} (before : Lived initial lengths l)
    (m : Machine) (action : Action Value) :
    Lived initial ((perform l m action).2.1.len :: lengths) (perform l m action).2.1

/-- What the history of the lengths tells about the table. -/
structure Foretold (initial : Nat) (lengths : List Nat) (l : ValueList) : Prop where
  latest : lengths.head? = some l.len
  size : l.slots.size = recentPeak lengths
  bounded : l.capacity ≤ max (max initial 4) (2 * (peak lengths - 1))

theorem foretold_fresh {l : ValueList} (fresh : Fresh l) : Foretold l.capacity [0] l := by
  have holds := fresh_holds fresh
  have empty : l.len = 0 := SlotList.len_eq_length holds
  refine ⟨by rw [empty]; rfl, SlotList.size_of_empty holds empty, ?_⟩
  omega

theorem foretold_step {initial : Nat} {lengths : List Nat} {l l' : ValueList}
    (before : Foretold initial lengths l) (steps : SlotList.Steps l l') :
    Foretold initial (l'.len :: lengths) l' where
  latest := rfl
  size := by
    rw [steps.size, before.size]
    rfl
  bounded := by
    have bounded := before.bounded
    have higher : peak (l'.len :: lengths) = max l'.len (peak lengths) := rfl
    rcases steps.capacity with same | ⟨full, longer, doubled⟩
    · omega
    · omega

theorem lived_holds {initial : Nat} {lengths : List Nat} {l : ValueList}
    (lived : Lived initial lengths l) :
    (∃ xs, SlotList.Holds l xs) ∧ Foretold initial lengths l := by
  induction lived with
  | fresh fresh => exact ⟨⟨[], fresh_holds fresh⟩, foretold_fresh fresh⟩
  | step before m action ih =>
    obtain ⟨⟨xs, holds⟩, foretold⟩ := ih
    have steps := steps_perform holds m action
    exact ⟨⟨_, (perform_holds holds m action).2⟩, foretold_step foretold steps⟩

/-- The law of a table, for a list with its history and for whatever happens to it next. -/
structure TableLaw (initial : Nat) (lengths : List Nat) (l : ValueList) : Prop
    extends Foretold initial lengths l where
  empty : l.len = 0 → l.slots.size = 0
  steps : ∀ m action, SlotList.Steps l (perform l m action).2.1
  lasting : ∀ m action, l.capacity ≤ (perform l m action).2.1.capacity
  asks_iff : ∀ s v r, AsksFor l.allocator r (SlotList.push s l v) ↔
    l.Widens ∧ r = l.growth (max (2 * l.capacity) 4)
  silent : ∀ s v, ¬l.Widens → AsksNothing (SlotList.push s l v)
  excessive : ∀ s v m, l.len = l.capacity →
    tableMax < l.allocator.slotSize * max (2 * l.capacity) 4 →
    ∃ e, (push s l v m).result = .error e
  failed : ∀ s v m e, (push s l v m).result = .error e →
    l.len = l.capacity ∧ (push s l v m).target = l ∧
      e = .allocation ⟨saturatingMul l.allocator.slotSize (l.len + 1)⟩ ∧
      saturatingMul l.allocator.slotSize (l.len + 1) ≤
        l.allocator.slotSize * max (2 * l.capacity) 4

theorem push_failed {l : ValueList} {xs : List Value} (holds : SlotList.Holds l xs) {s : Side}
    {v : Value} {m : Machine} {e : Error} (failed : (push s l v m).result = .error e) :
    l.len = l.capacity ∧ (push s l v m).target = l ∧
      e = .allocation ⟨saturatingMul l.allocator.slotSize (l.len + 1)⟩ := by
  rw [push_eq_keepOrRelease, keepOrRelease_result] at failed
  rw [push_eq_keepOrRelease, keepOrRelease_target]
  rcases SlotList.push_cases holds s v m with ⟨m', _, pushed⟩ | ⟨m', _, pushed⟩ | ⟨m', full, pushed⟩
  · rw [pushed] at failed
    cases failed
  · rw [pushed] at failed
    cases failed
  · rw [pushed] at failed ⊢
    cases failed
    exact ⟨full, rfl, rfl⟩

/-- Whatever operations have made of a list, on whatever machines, its table obeys the law. -/
theorem lived_obeys {initial : Nat} {lengths : List Nat} {l : ValueList}
    (lived : Lived initial lengths l) : TableLaw initial lengths l := by
  obtain ⟨⟨xs, holds⟩, foretold⟩ := lived_holds lived
  refine ⟨foretold, SlotList.size_of_empty holds, steps_perform holds, ?_, ?_, ?_, ?_, ?_⟩
  · intro m action
    rcases (steps_perform holds m action).capacity with same | ⟨_, _, doubled⟩
    · exact Nat.le_of_eq same.symm
    · rw [doubled]
      omega
  · intro s v r
    exact asksFor_iff (fun widens => SlotList.asksFor_push holds widens s v)
      (fun narrow => SlotList.asksNothing_push holds narrow s v) r
  · intro s v narrow
    exact SlotList.asksNothing_push holds narrow s v
  · intro s v m full excessive
    rw [push_eq_keepOrRelease, keepOrRelease_result,
      SlotList.push_excessive holds full excessive]
    exact ⟨_, rfl⟩
  · intro s v m e failed
    obtain ⟨full, unchanged, cause⟩ := push_failed holds failed
    refine ⟨full, unchanged, cause, ?_⟩
    have fewer : l.len + 1 ≤ max (2 * l.capacity) 4 := by omega
    exact Nat.le_trans (Nat.min_le_left _ _) (Nat.mul_le_mul_left _ fewer)

def receded : ValueList :=
  let pushed := [1, 2, 3, 4, 5].foldl
    (fun l n => (perform l (.start .system) (.pushBack (.integer n))).2.1) (.empty .base)
  let fewer := (perform pushed (.start .system) .popFront).2.1
  (perform fewer (.start .system) (.remove 1)).2.1

theorem lived_obeys_receded :
    Lived 0 [3, 4, 5, 4, 3, 2, 1, 0] receded ∧ receded.slots.size = 5 ∧ receded.capacity = 8 ∧
      TableLaw 0 [3, 4, 5, 4, 3, 2, 1, 0] receded := by
  have lived : Lived 0 [3, 4, 5, 4, 3, 2, 1, 0] receded :=
    .step (.step (.step (.step (.step (.step (.step (.fresh (.empty .base)) (.start .system)
      (.pushBack (.integer 1))) (.start .system) (.pushBack (.integer 2))) (.start .system)
      (.pushBack (.integer 3))) (.start .system) (.pushBack (.integer 4))) (.start .system)
      (.pushBack (.integer 5))) (.start .system) .popFront) (.start .system) (.remove 1)
  exact ⟨lived, rfl, rfl, lived_obeys lived⟩

end ValueList
end TrackedValues
