import TrackedValues.Proofs.World.Balance

/-!
Failures change nothing. A push or a removal that fails leaves its receiver exactly as it was, with
every slot, link and capacity of it. An element that could not be pushed is released, and that is
all that the trackers notice.
-/
namespace TrackedValues

/-- The value itself, and the elements of its lists at any depth. -/
inductive Value.Inside : Value → Value → Prop
  | itself (v : Value) : Inside v v
  | element {v x : Value} {l : ValueList} (member : x ∈ SlotList.elements l)
    (inside : Inside v x) : Inside v (.list l)

theorem Value.sound_inside {v w : Value} (inside : v.Inside w) (sound : w.Sound) : v.Sound := by
  induction inside with
  | itself => exact sound
  | element member _ ih =>
    obtain ⟨xs, holds, each⟩ := (sound_list _).mp sound
    rw [SlotList.elements_eq holds] at member
    exact ih (each _ member)

/--
What is left of a push that failed: the target as it was, and of all that is counted only the
containers of the element are gone, each released once.
-/
structure Rejected {ρ : Type} (element : Value) (target : ρ) (m : Machine)
    (o : Outcome Error ρ Unit) : Prop where
  unchanged : o.target = target
  bytes : ∀ t, (o.machine.heap.tracker t).stats.liveBytes + Holding.bytes t element.containers =
    (m.heap.tracker t).stats.liveBytes
  blocks : ∀ t, (o.machine.heap.tracker t).stats.liveAllocations +
    Holding.count t (Holding.live element.containers) = (m.heap.tracker t).stats.liveAllocations
  released : ∀ t, (o.machine.heap.tracker t).stats.deallocations =
    (m.heap.tracker t).stats.deallocations + Holding.count t (Holding.live element.containers)
  requested : ∀ t, (o.machine.heap.tracker t).stats.allocations =
      (m.heap.tracker t).stats.allocations ∧
    (o.machine.heap.tracker t).stats.reallocations = (m.heap.tracker t).stats.reallocations

theorem rejected_release {ρ : Type} {element : Value} (sound : element.Sound) {m m' : Machine}
    {others : List Holding} (accounts : m.heap.Accounts (element.holdings ++ others))
    (same : ∀ t, m'.heap.tracker t = m.heap.tracker t) (target : ρ) (e : Error) :
    Rejected element target m ⟨.error e, target, element.release m'⟩ := by
  have before : m'.heap.Accounts (element.holdings ++ others) :=
    Heap.accounts_frame accounts fun t => by rw [same t]
  have gone := Value.givesBack_release sound before
  constructor
  · rfl
  · intro t
    rw [← same t]
    exact gone.bytes t
  · intro t
    rw [← same t]
    exact gone.blocks t
  · intro t
    rw [← same t]
    exact gone.released t
  · intro t
    rw [← same t]
    exact gone.requested t

namespace ValueList

theorem rejected_keepOrRelease {l : ValueList} {xs : List Value} {element : Value}
    (sound : element.Sound) {m : Machine} {others : List Holding}
    (accounts : m.heap.Accounts (element.holdings ++ others)) {o : Outcome Error ValueList Unit}
    (pushed : Pushed element l xs m o) {e : Error}
    (failed : (keepOrRelease element o).result = .error e) :
    (∃ cause, e = .allocation cause) ∧ Rejected element l m (keepOrRelease element o) := by
  rcases pushed with ⟨granted, _⟩ | ⟨⟨cause, refused⟩, same, trackers⟩
  · simp [keepOrRelease, granted] at failed
  · simp only [keepOrRelease, refused] at failed ⊢
    cases failed
    refine ⟨⟨cause, rfl⟩, ?_⟩
    have rejected := rejected_release sound accounts trackers l (.allocation cause)
    rw [same]
    exact rejected

theorem remove_failed {l : ValueList} {xs : List Value} (holds : SlotList.Holds l xs)
    {position : Nat} {m : Machine} {e : Error}
    (failed : (SlotList.remove l position m).result = .error e) :
    SlotList.remove l position m = ⟨.error (.indexOutOfRange position l.len), l, m⟩ := by
  by_cases inside : position < xs.length
  · have removed := (SlotList.remove_inside holds inside m).1
    rw [removed] at failed
    cases failed
  · rw [SlotList.remove_outside holds (Nat.not_lt.mp inside) m, SlotList.len_eq_length holds]

end ValueList

/-- A mutator of a list that fails leaves the list alone; a push releases its element. -/
structure ValueList.FailsAtomically (l : ValueList) (element : Value) (m : Machine) : Prop where
  pushBack : ∀ e, (ValueList.pushBack l element m).result = .error e →
    (∃ cause, e = .allocation cause) ∧ Rejected element l m (ValueList.pushBack l element m)
  pushFront : ∀ e, (ValueList.pushFront l element m).result = .error e →
    (∃ cause, e = .allocation cause) ∧ Rejected element l m (ValueList.pushFront l element m)
  remove : ∀ position e, (SlotList.remove l position m).result = .error e →
    SlotList.remove l position m = ⟨.error (.indexOutOfRange position l.len), l, m⟩

theorem ValueList.failsAtomically {l : ValueList} {xs : List Value} (holds : SlotList.Holds l xs)
    {element : Value} (sound : element.Sound) {m : Machine} {others : List Holding}
    (accounts : m.heap.Accounts (element.holdings ++ others)) : FailsAtomically l element m where
  pushBack _ failed := rejected_keepOrRelease sound accounts (pushed_back holds element m) failed
  pushFront _ failed := rejected_keepOrRelease sound accounts (pushed_front holds element m) failed
  remove _ _ failed := remove_failed holds failed

namespace Value

def Explained (v : Value) (reason : ValueList → Error → Prop) (e : Error) : Prop :=
  match v with
  | list l => reason l e
  | v => e = .typeMismatch .list v.shape

structure FailsAtomically (v element : Value) (m : Machine) : Prop where
  pushBack : ∀ e, (v.pushBack element m).result = .error e →
    v.Explained (fun _ e => ∃ cause, e = .allocation cause) e ∧
      Rejected element v m (v.pushBack element m)
  pushFront : ∀ e, (v.pushFront element m).result = .error e →
    v.Explained (fun _ e => ∃ cause, e = .allocation cause) e ∧
      Rejected element v m (v.pushFront element m)
  remove : ∀ position e, (v.remove position m).result = .error e →
    v.Explained (fun l e => e = .indexOutOfRange position l.len) e ∧
      (v.remove position m).target = v ∧ (v.remove position m).machine.heap = m.heap

theorem rejected_list {element : Value} {l : ValueList} {m : Machine}
    {o : Outcome Error ValueList Unit} (rejected : Rejected element l m o) :
    Rejected element (list l) m (o.within list) :=
  ⟨congrArg list rejected.unchanged, rejected.bytes, rejected.blocks, rejected.released,
    rejected.requested⟩

theorem failsAtomically_list {l : ValueList} {element : Value} {m : Machine}
    (fails : ValueList.FailsAtomically l element m) : (list l).FailsAtomically element m where
  pushBack e failed := by
    obtain ⟨cause, rejected⟩ := fails.pushBack e failed
    exact ⟨cause, rejected_list rejected⟩
  pushFront e failed := by
    obtain ⟨cause, rejected⟩ := fails.pushFront e failed
    exact ⟨cause, rejected_list rejected⟩
  remove position e failed := by
    have same := fails.remove position e failed
    simp only [Value.remove, onList, Outcome.within] at failed ⊢
    rw [same] at failed ⊢
    cases failed
    exact ⟨rfl, rfl, rfl⟩

theorem rejected_refused {v element : Value} (sound : element.Sound) {m : Machine}
    {others : List Holding} (accounts : m.heap.Accounts (element.holdings ++ others)) :
    Rejected element v m ⟨.error (.typeMismatch .list v.shape), v,
      element.release (m.emit (.mismatch .list v.shape))⟩ := by
  have same : ∀ t, (m.emit (.mismatch .list v.shape)).heap.tracker t = m.heap.tracker t :=
    fun _ => rfl
  exact rejected_release sound accounts same v _

theorem failsAtomically {v element : Value} (sound : v.Sound) (sound_element : element.Sound)
    {m : Machine} {others : List Holding}
    (accounts : m.heap.Accounts (element.holdings ++ others)) : v.FailsAtomically element m := by
  cases sound with
  | list holds each =>
    exact failsAtomically_list (ValueList.failsAtomically holds sound_element accounts)
  | _ =>
    constructor
    · intro e failed
      cases failed
      exact ⟨rfl, rejected_refused sound_element accounts⟩
    · intro e failed
      cases failed
      exact ⟨rfl, rejected_refused sound_element accounts⟩
    · intro position e failed
      cases failed
      exact ⟨rfl, rfl, rfl⟩

end Value

namespace World

theorem run_accounts_owned (base : Base) (operations : List Operation) {v : Value}
    (owned : v ∈ (run base operations).owned) :
    v.Sound ∧ ∃ others,
      (run base operations).machine.heap.Accounts (v.holdings ++ others) := by
  obtain ⟨accounts, sound⟩ := run_accounts base operations
  obtain ⟨before, after, same⟩ := List.append_of_mem owned
  refine ⟨sound v owned, (before ++ after).flatMap Value.holdings, ?_⟩
  rw [same] at accounts
  exact Heap.accounts_perm accounts (List.perm_middle.flatMap_right Value.holdings)

/--
After any run, whatever value is owned, at any depth, and whatever owned element it is given: the
mutators of the value, and those of the list it may be, fail atomically.
-/
theorem run_fails_atomically (base : Base) (operations : List Operation) {owner element : Value}
    (owned : owner ∈ (run base operations).owned)
    (carried : element ∈ (run base operations).owned) :
    (∀ v : Value, v.Inside owner → v.FailsAtomically element (run base operations).machine) ∧
      ∀ l : ValueList, (Value.list l).Inside owner →
        ValueList.FailsAtomically l element (run base operations).machine := by
  have sound := (run_accounts_owned base operations owned).1
  obtain ⟨sound_element, others, accounts⟩ := run_accounts_owned base operations carried
  constructor
  · intro v inside
    exact Value.failsAtomically (Value.sound_inside inside sound) sound_element accounts
  · intro l inside
    obtain ⟨xs, holds, _⟩ := (Value.sound_list l).mp (Value.sound_inside inside sound)
    exact ValueList.failsAtomically holds sound_element accounts

/-- A text on tracker 1, and a list on tracker 0 that may not get a table. -/
def walledIn : List Operation :=
  [.make (.emptyList (.tracked 0)), .make (.text (.tracked 1) [97, 98, 99]), .setLimit 0 (some 9)]

theorem run_fails_atomically_walledIn :
    ∃ list text, (run .system walledIn).owned = [text, list] ∧
      (list.pushBack text (run .system walledIn).machine).result = .error (.allocation ⟨120⟩) ∧
      Rejected text list (run .system walledIn).machine
        (list.pushBack text (run .system walledIn).machine) ∧
      Holding.bytes 1 text.containers = 3 := by
  obtain ⟨list, text, owned, failed, bytes⟩ : ∃ list text,
      (run .system walledIn).owned = [text, list] ∧
      (list.pushBack text (run .system walledIn).machine).result = .error (.allocation ⟨120⟩) ∧
      Holding.bytes 1 text.containers = 3 := ⟨_, _, rfl, rfl, rfl⟩
  have owner : list ∈ (run .system walledIn).owned := by simp [owned]
  have carried : text ∈ (run .system walledIn).owned := by simp [owned]
  have fails := (run_fails_atomically .system walledIn owner carried).1 list (.itself list)
  exact ⟨list, text, owned, failed, (fails.pushBack _ failed).2, bytes⟩

end World
end TrackedValues
