import TrackedValues.Proofs.Value.Holdings

/-!
Ownership of values over time. A machine moves from owning some values to owning others when, as
long as the first are sound, their holdings have become exactly the holdings of the second, which
are sound again. Each operation is such a move; what is owned besides does not take part in it.
-/
namespace TrackedValues

namespace Machine

def Moves (m : Machine) (given : List Value) (m' : Machine) (taken : List Value) : Prop :=
  (∀ v ∈ given, v.Sound) →
    m.Exchanges (given.flatMap Value.holdings) m' (taken.flatMap Value.holdings) ∧
      ∀ v ∈ taken, v.Sound

variable {m m' m'' : Machine} {given taken further : List Value}

theorem moves_trans (first : m.Moves given m' taken) (second : m'.Moves taken m'' further) :
    m.Moves given m'' further := by
  intro sound
  obtain ⟨exchanges, between⟩ := first sound
  obtain ⟨exchanges', after⟩ := second between
  exact ⟨exchanges_trans exchanges exchanges', after⟩

theorem moves_perm (m : Machine) (perm : given.Perm taken) : m.Moves given m taken := by
  intro sound
  constructor
  · exact exchanges_perm (m.exchanges_refl _) (List.Perm.refl _) (perm.flatMap_right _)
  · intro v member
    exact sound v (perm.symm.subset member)

theorem moves_refl (m : Machine) (vs : List Value) : m.Moves vs m vs :=
  m.moves_perm (List.Perm.refl vs)

theorem moves_of_heap (same : m'.heap = m.heap) (vs : List Value) : m.Moves vs m' vs :=
  fun sound => ⟨exchanges_of_heap same _, sound⟩

theorem moves_beside (moves : m.Moves given m' taken) (others : List Value) :
    m.Moves (given ++ others) m' (taken ++ others) := by
  intro sound
  obtain ⟨exchanges, after⟩ := moves fun v member => sound v (List.mem_append_left _ member)
  constructor
  · rw [List.flatMap_append, List.flatMap_append]
    exact exchanges_beside exchanges _
  · intro v member
    rcases List.mem_append.mp member with inside | beside
    · exact after v inside
    · exact sound v (List.mem_append_right _ beside)

theorem moves_congr {given' taken' : List Value} (moves : m.Moves given m' taken)
    (before : given'.Perm given) (after : taken.Perm taken') : m.Moves given' m' taken' :=
  moves_trans (m.moves_perm before) (moves_trans moves (m'.moves_perm after))

theorem moves_release (v : Value) (m : Machine) : m.Moves [v] (v.release m) [] := by
  intro _
  refine ⟨?_, by simp⟩
  simpa using v.exchanges_release m

theorem relist_perm {l : ValueList} {xs : List Value} (holds : SlotList.Holds l xs)
    (given : List Value) :
    ((Value.list l :: given).flatMap Value.holdings).Perm
      (l.tableHoldings ++ (xs ++ given).flatMap Value.holdings) := by
  rw [List.flatMap_cons, Value.holdings_list, List.flatMap_append, ← List.append_assoc]
  have swapped := (ValueList.holdings_perm holds).trans List.perm_append_comm
  exact swapped.append_right _

theorem sound_elements {l : ValueList} {xs : List Value} (holds : SlotList.Holds l xs)
    (sound : (Value.list l).Sound) : ∀ v ∈ xs, v.Sound := by
  obtain ⟨ys, holds', each⟩ := (Value.sound_list l).mp sound
  have same : ys = xs := (SlotList.elements_eq holds').symm.trans (SlotList.elements_eq holds)
  exact same ▸ each

/-- A list changes its table first, and then its elements move. -/
theorem moves_relist {l l' : ValueList} {xs xs' : List Value} (holds : SlotList.Holds l xs)
    (holds' : SlotList.Holds l' xs') (table : m.Exchanges l.tableHoldings m' l'.tableHoldings)
    (moves : m'.Moves (xs ++ given) m'' (xs' ++ taken)) :
    m.Moves (.list l :: given) m'' (.list l' :: taken) := by
  intro sound
  simp only [List.mem_cons, forall_eq_or_imp] at sound
  have inside : ∀ v ∈ xs ++ given, v.Sound := by
    intro v member
    rcases List.mem_append.mp member with element | beside
    · exact sound_elements holds sound.1 v element
    · exact sound.2 v beside
  obtain ⟨exchanges, after⟩ := moves inside
  -- The table is exchanged beside the elements, and the elements are moved beside the new table.
  constructor
  · have first := exchanges_beside table ((xs ++ given).flatMap Value.holdings)
    have second := exchanges_perm (exchanges_beside exchanges l'.tableHoldings)
      List.perm_append_comm List.perm_append_comm
    exact exchanges_perm (exchanges_trans first second) (relist_perm holds given)
      (relist_perm holds' taken).symm
  · intro v member
    rcases List.mem_cons.mp member with rfl | beside
    · exact .list holds' fun x element => after x (List.mem_append_left _ element)
    · exact after v (List.mem_append_right _ beside)

end Machine

end TrackedValues
