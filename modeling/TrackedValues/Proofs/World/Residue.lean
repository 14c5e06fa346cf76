import TrackedValues.Proofs.Memory.Obtaining
import TrackedValues.Proofs.Value.Canonical
import TrackedValues.Proofs.World.Housing

/-!
A copy that fails leaves nothing behind. Tables and texts may have been copied already when storage
runs out, on any of the trackers and at any depth; all of them have been returned when the error
arrives, each of them once, and the original is what it was.
-/
namespace TrackedValues
open SlotList (Holds filled slotsFor)

/-- On top of what was held, work has obtained a copy, or nothing for want of storage. -/
def Machine.Builds (start : Machine) (held : List Holding)
    (answer : Except Error Value × Machine) : Prop :=
  match answer with
  | (.ok v, m) => start.Obtains (v.holdings ++ held) m
  | (.error e, m) => (∃ cause, e = .allocation cause) ∧ start.Obtains held m

variable {start m : Machine} {held : List Holding}

theorem TextBuffer.builds_duplicate {b : TextBuffer} (sound : b.Sound)
    (obtains : start.Obtains held m) : start.Builds held (Value.ofText (b.duplicate m)) := by
  have capacity := capacity_trimmed sound
  rcases duplicate_cases sound m with ⟨vacant, copied⟩ |
    ⟨wanted, _, block, m', granted, copied⟩ | ⟨_, m', refused, failed⟩
  · have nothing : b.trimmed.holdings = [] := if_pos (capacity.trans vacant)
    rw [copied]
    change start.Obtains (b.trimmed.holdings ++ held) m
    rw [nothing]
    exact obtains
  · have once : b.trimmed.holdings = [⟨b.allocator, b.len⟩] := by
      rw [holdings, capacity, if_neg wanted]
      rfl
    rw [copied]
    change start.Obtains (b.trimmed.holdings ++ held) _
    rw [once]
    exact Machine.obtains_frame (Machine.obtains_fresh obtains granted) fun _ => rfl
  · rw [failed]
    exact ⟨⟨_, rfl⟩, Machine.obtains_frame (Machine.obtains_refused obtains refused) fun _ => rfl⟩

namespace ValueList

theorem holdings_filled (a : Allocator) {capacity : Nat} {xs : List Value}
    (room : xs.length ≤ capacity) :
    (holdings (filled a capacity xs)).Perm
      (xs.flatMap Value.holdings ++ (filled a capacity [] : ValueList).tableHoldings) := by
  have table : (filled a capacity xs).tableHoldings =
      (filled a capacity [] : ValueList).tableHoldings := by
    obtain ⟨allocator, slots⟩ := SlotList.filled_table a capacity xs
    obtain ⟨allocator', slots'⟩ := SlotList.filled_table a capacity ([] : List Value)
    exact SlotList.tableHoldings_congr (allocator.trans allocator'.symm) (slots.trans slots'.symm)
  rw [← table]
  exact holdings_perm (SlotList.holds_filled a room)

theorem builds_pushCopies {a : Allocator} {capacity : Nat} {vs done : List Value}
    (each : ∀ v ∈ vs, ∀ held m, start.Obtains held m → start.Builds held (v.duplicate m))
    (room : done.length + vs.length ≤ capacity)
    (obtains : start.Obtains (holdings (filled a capacity done) ++ held) m) :
    start.Builds held
      (Value.ofList (pushCopies (filled a capacity done) (vs.map Value.duplicate) m)) := by
  -- The list with the copies made so far is held at every stage, and released if one is missing.
  induction vs generalizing done m with
  | nil =>
    change start.Obtains ((Value.list _).holdings ++ held) m
    rw [Value.holdings_list]
    exact obtains
  | cons v vs ih =>
    rw [List.forall_mem_cons] at each
    rw [List.length_cons] at room
    have copied := each.1 _ m obtains
    rw [List.map_cons]
    unfold pushCopies
    generalize v.duplicate m = answer at copied ⊢
    obtain ⟨result, m'⟩ := answer
    cases result with
    | error e =>
      refine ⟨copied.1, ?_⟩
      rw [release_eq_giveBack]
      exact Machine.obtains_giveBack copied.2
    | ok w =>
      have pushed := pushBack_filled a w (show done.length < capacity by omega) m'
      have further : (done ++ [w]).length + vs.length ≤ capacity := by
        rw [List.length_append, List.length_singleton]
        omega
      have before := holdings_filled a (show done.length ≤ capacity by omega)
      have after := holdings_filled a (show (done ++ [w]).length ≤ capacity by omega)
      rw [List.flatMap_append, List.flatMap_singleton, List.append_assoc] at after
      have swapped := (List.perm_append_comm_assoc w.holdings (done.flatMap Value.holdings)
        (filled a capacity [] : ValueList).tableHoldings)
      have joined := ((before.append_left w.holdings).trans swapped).trans after.symm
      have copied : start.Obtains (w.holdings ++ (holdings (filled a capacity done) ++ held)) m' :=
        copied
      rw [← List.append_assoc] at copied
      dsimp only
      rw [pushed]
      exact ih each.2 further (Machine.obtains_perm copied (joined.append_right held))

theorem builds_copyWith {l : ValueList} {xs : List Value} (holds : Holds l xs)
    (each : ∀ v ∈ xs, ∀ held m, start.Obtains held m → start.Builds held (v.duplicate m))
    (obtains : start.Obtains held m) :
    start.Builds held (Value.ofList ((l.map Value.duplicate).copyWith m)) := by
  have copyings : (l.map Value.duplicate).elements = xs.map Value.duplicate := by
    rw [SlotList.elements_map, SlotList.elements_eq holds]
  have room : ([] : List Value).length + xs.length ≤ slotsFor l.len := by
    rw [SlotList.len_eq_length holds, List.length_nil, Nat.zero_add]
    exact SlotList.le_slotsFor _
  have empty : ([] : List Value).length ≤ slotsFor l.len := Nat.zero_le _
  have fresh := holdings_filled l.allocator empty
  have table : l.len ≠ 0 → (filled l.allocator (slotsFor l.len) [] : ValueList).tableHoldings =
      [⟨l.allocator, l.allocator.slotSize * slotsFor l.len⟩] := by
    intro wanted
    have present : slotsFor l.len ≠ 0 := by
      have enough := SlotList.le_slotsFor l.len
      omega
    exact if_neg present
  unfold SlotList.copyWith
  rw [copyings]
  simp only [SlotList.map]
  rcases SlotList.withCapacity_answers (α := Value) l.allocator l.len m with
    ⟨vacant, built⟩ | ⟨wanted, _, block, m', granted, built⟩ | ⟨_, m', found, failed⟩
  · rw [built]
    apply builds_pushCopies each room
    rw [vacant]
    exact obtains
  · rw [built]
    apply builds_pushCopies each room
    rw [table wanted] at fresh
    exact Machine.obtains_perm (Machine.obtains_fresh obtains granted)
      (fresh.symm.append_right held)
  · rw [failed]
    have after : start.Obtains held m' := by
      rcases found with ⟨_, rfl⟩ | refused
      · exact obtains
      · exact Machine.obtains_refused obtains refused
    exact ⟨⟨_, rfl⟩, Machine.obtains_frame after fun _ => rfl⟩

end ValueList

theorem Value.builds_duplicate {v : Value} (sound : v.Sound) :
    ∀ held m, start.Obtains held m → start.Builds held (v.duplicate m) := by
  induction sound with
  | integer n => exact fun _ _ obtains => obtains
  | real x => exact fun _ _ obtains => obtains
  | boolean b => exact fun _ _ obtains => obtains
  | text sound => exact fun _ _ obtains => TextBuffer.builds_duplicate sound obtains
  | list holds _ ih =>
    intro held m obtains
    rw [duplicate_list]
    exact ValueList.builds_copyWith holds ih obtains

/--
After some work every tracker counts what it counted before: the blocks that were obtained
meanwhile have all been returned, and none was ever made longer.
-/
structure Machine.Unmarked (m m' : Machine) : Prop where
  bytes : ∀ t, (m'.heap.tracker t).stats.liveBytes = (m.heap.tracker t).stats.liveBytes
  blocks : ∀ t, (m'.heap.tracker t).stats.liveAllocations =
    (m.heap.tracker t).stats.liveAllocations
  reallocations : ∀ t, (m'.heap.tracker t).stats.reallocations =
    (m.heap.tracker t).stats.reallocations
  returned : ∀ t, ∃ n,
    (m'.heap.tracker t).stats.allocations = (m.heap.tracker t).stats.allocations + n ∧
      (m'.heap.tracker t).stats.deallocations = (m.heap.tracker t).stats.deallocations + n
  limits : ∀ t, (m'.heap.tracker t).limit = (m.heap.tracker t).limit

theorem Machine.unmarked_of_obtains (obtains : start.Obtains [] m) : start.Unmarked m where
  bytes := obtains.bytes
  blocks t := by
    obtain ⟨n, fresh, returned⟩ := obtains.returned t
    have nothing : Holding.count t [] = 0 := rfl
    simp only [Stats.liveAllocations]
    omega
  reallocations := obtains.reallocations
  returned := obtains.returned
  limits := obtains.limit

def CopyVanishes {α : Type} (m : Machine) (answer : Except Error α × Machine) : Prop :=
  ∀ e m', answer = (.error e, m') → (∃ cause, e = .allocation cause) ∧ m.Unmarked m'

theorem copyVanishes_of_builds {m : Machine} {answer : Except Error Value × Machine}
    (builds : m.Builds [] answer) : CopyVanishes m answer := by
  rintro e m' rfl
  exact ⟨builds.1, Machine.unmarked_of_obtains builds.2⟩

theorem Value.duplicate_vanishes {v : Value} (sound : v.Sound) (m : Machine) :
    CopyVanishes m (v.duplicate m) :=
  copyVanishes_of_builds (builds_duplicate sound [] m m.obtains_nothing)

theorem ValueList.duplicate_vanishes {l : ValueList} (sound : (Value.list l).Sound) (m : Machine) :
    CopyVanishes m (duplicate l m) := by
  have vanishes := Value.duplicate_vanishes sound m
  rw [Value.duplicate_list] at vanishes
  intro e m' failed
  exact vanishes e m' (congrArg Value.ofList failed)

theorem TextBuffer.duplicate_vanishes {b : TextBuffer} (sound : b.Sound) {m m' : Machine}
    {e : AllocationError} (failed : b.duplicate m = (.error e, m')) : m.Unmarked m' := by
  have builds := builds_duplicate sound m.obtains_nothing
  exact (copyVanishes_of_builds builds _ m' (congrArg Value.ofText failed)).2

namespace World

/-- What a world keeps when the copy of one of its values fails: everything but the new counters. -/
def KeepsAll (w : World) (n : Nat) (path : List Nat) : Prop :=
  ∀ v x m, w.values[n]? = some v → v.find path w.machine = (.ok (some x), m) →
    ∀ e m', x.duplicate m = (.error e, m') →
      w.perform (.clone n path) = { w with machine := m' } ∧ w.machine.Unmarked m'

theorem keepsAll {w : World} (sound : ∀ v ∈ w.values, v.Sound) (n : Nat) (path : List Nat) :
    w.KeepsAll n path := by
  intro v x m found reached e m' failed
  have sound := sound v (List.mem_of_getElem? found)
  have inside : x.Inside v := Value.find_inside sound (congrArg Prod.fst reached)
  have heap : m.heap = w.machine.heap := by
    have looked := v.find_heap path w.machine
    rwa [reached] at looked
  obtain ⟨_, unmarked⟩ := Value.duplicate_vanishes (Value.sound_inside inside sound) m e m' failed
  constructor
  · simp only [perform, clone, found, reached, failed, adopt]
  · constructor <;> rw [← heap]
    · exact unmarked.bytes
    · exact unmarked.blocks
    · exact unmarked.reallocations
    · exact unmarked.returned
    · exact unmarked.limits

/--
After any run, for whatever is owned and whatever is inside it, on any machine with any limits: the
copy of a value, of a list or of a text that fails vanishes. The world that asked for it keeps all
that it owns as it was.
-/
theorem run_failed_copies_vanish (base : Base) (operations : List Operation) {owner : Value}
    (owned : owner ∈ (run base operations).owned) :
    (∀ v : Value, v.Inside owner → ∀ m, CopyVanishes m (v.duplicate m)) ∧
      (∀ l : ValueList, (Value.list l).Inside owner →
        ∀ m, CopyVanishes m (ValueList.duplicate l m)) ∧
      (∀ b : TextBuffer, (Value.text b).Inside owner →
        ∀ m e m', b.duplicate m = (.error e, m') → m.Unmarked m') ∧
      ∀ n path, (run base operations).KeepsAll n path := by
  have all_sound := (run_accounts base operations).2
  have sound : ∀ v : Value, v.Inside owner → v.Sound := fun v inside =>
    Value.sound_inside inside (all_sound owner owned)
  refine ⟨?_, ?_, ?_, ?_⟩
  · intro v inside m
    exact Value.duplicate_vanishes (sound v inside) m
  · intro l inside m
    exact ValueList.duplicate_vanishes (sound (.list l) inside) m
  · intro b inside m e m' failed
    cases sound (.text b) inside with
    | text sound => exact TextBuffer.duplicate_vanishes sound failed
  · exact keepsAll fun v member => all_sound v (List.mem_append_left _ member)

def stacked (t : TrackerId) (apart : t ≠ 0) : Allocator := ⟨[t, 0], by simp [apart]⟩

/--
Two texts in a list, all three around tracker 0. There is room for a copy of the table and of the
first text, and then for one byte less than the second one needs.
-/
def halfRoom : List Operation :=
  [.make (.roomyList (stacked 1 (by decide)) 2),
    .make (.text (stacked 2 (by decide)) [97, 98, 99]), .give .back 0 0 [],
    .make (.text (stacked 2 (by decide)) [100, 101]), .give .back 0 0 [], .setLimit 2 (some 9)]

theorem run_failed_copies_vanish_halfRoom :
    ∃ list m', (run .system halfRoom).owned = [list] ∧
      list.duplicate (run .system halfRoom).machine = (.error (.allocation ⟨2⟩), m') ∧
      (run .system halfRoom).machine.Unmarked m' ∧
      ((run .system halfRoom).stats 0).allocations = 3 ∧
      (m'.heap.tracker 0).stats.allocations = 5 ∧ (m'.heap.tracker 0).stats.deallocations = 2 := by
  obtain ⟨list, m', owned, failed, before, after, returned⟩ : ∃ list m',
      (run .system halfRoom).owned = [list] ∧
      list.duplicate (run .system halfRoom).machine = (.error (.allocation ⟨2⟩), m') ∧
      ((run .system halfRoom).stats 0).allocations = 3 ∧
      (m'.heap.tracker 0).stats.allocations = 5 ∧ (m'.heap.tracker 0).stats.deallocations = 2 :=
    ⟨_, _, rfl, rfl, by decide +kernel, by decide +kernel, by decide +kernel⟩
  have owner : list ∈ (run .system halfRoom).owned := by simp [owned]
  have vanishes := (run_failed_copies_vanish .system halfRoom owner).1 list (.itself list)
  exact ⟨list, m', owned, failed, (vanishes _ _ m' failed).2, before, after, returned⟩

end World
end TrackedValues
