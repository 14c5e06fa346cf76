import TrackedValues.Proofs.Value.Canonical
import TrackedValues.Proofs.Value.Editing
import TrackedValues.Proofs.ValueList.Refinement

/-!
Housing. Every table that a list ever has is one that can be addressed, and it has at least four
slots: tables come from growth alone, and growth asks for no other. So the packed form of a list,
which needs no more than the list has or four slots, can be addressed as well.
-/
namespace TrackedValues
open SlotList (Holds)

/-- The table, if there is one, has four slots or more, and no more than can be addressed. -/
def SlotList.Housed {α : Type} (l : SlotList α) : Prop :=
  ∀ h ∈ l.tableHoldings, h.allocator.slotSize * 4 ≤ h.size ∧ h.size ≤ tableMax

namespace SlotList
variable {α : Type}

theorem housed_congr {l k : SlotList α} (table : k.tableHoldings = l.tableHoldings)
    (housed : l.Housed) : k.Housed := by
  unfold Housed at *
  rwa [table]

theorem housed_empty (a : Allocator) : (empty a : SlotList α).Housed := by
  simp [Housed, tableHoldings, empty]

theorem housed_growTable {l : SlotList α} (housed : l.Housed) {target : Nat} (wanted : Nat)
    (m : Machine) (four : 4 ≤ target) : (l.growTable target wanted m).target.Housed := by
  rcases growTable_cases l target wanted m with ⟨_, _, addressable, _, grown⟩ | ⟨_, _, grown⟩
  · rw [grown]
    have present : (l.resized target).capacity ≠ 0 := by
      simp only [resized]
      omega
    intro h member
    rw [tableHoldings, if_neg present, List.mem_singleton] at member
    rw [member]
    exact ⟨Nat.mul_le_mul_left _ four, addressable⟩
  · rw [grown]
    exact housed

theorem housed_reserveSlot {l : SlotList α} (housed : l.Housed) (m : Machine) :
    (l.reserveSlot m).target.Housed := by
  unfold reserveSlot
  split
  · exact housed
  · apply housed_growTable housed
    unfold nextCapacity
    omega

theorem housed_pushWith {link : SlotList α → SlotList α}
    (kept : ∀ roomy, (link roomy).tableHoldings = roomy.tableHoldings) (neighbour : Option Nat)
    {l : SlotList α} (housed : l.Housed) (m : Machine) :
    (pushWith link neighbour l m).target.Housed := by
  have reserved := housed_reserveSlot housed m
  unfold pushWith Outcome.andThen
  split
  · dsimp only
    split
    · exact reserved
    · exact housed_congr (kept _) reserved
  · exact reserved

theorem housed_filled (a : Allocator) {capacity : Nat} (xs : List α)
    (addressable : capacity ≠ 0 → 4 ≤ capacity ∧ a.slotSize * capacity ≤ tableMax) :
    (filled a capacity xs).Housed := by
  obtain ⟨allocator, slots⟩ := filled_table a capacity xs
  intro h member
  unfold tableHoldings at member
  split at member
  · simp at member
  · rename_i present
    rw [slots] at present
    obtain ⟨four, fits⟩ := addressable present
    rw [List.mem_singleton.mp member, tableBytes, allocator, slots]
    exact ⟨Nat.mul_le_mul_left _ four, fits⟩

theorem housed_withCapacity {a : Allocator} {capacity : Nat} {m m' : Machine} {l : SlotList α}
    (built : withCapacity a capacity m = (.ok l, m')) : l.Housed := by
  have grown : ((empty a : SlotList α).growTable (max capacity 4) capacity m).target.Housed :=
    housed_growTable (housed_empty a) capacity m (Nat.le_max_right _ _)
  unfold withCapacity at built
  split at built
  · cases built
    exact housed_empty a
  · dsimp only at built
    split at built
    · cases built
      exact grown
    · cases built

theorem slotsFor_addressable {l : SlotList α} {xs : List α} (holds : Holds l xs)
    (housed : l.Housed) (some_wanted : l.len ≠ 0) :
    l.allocator.slotSize * max l.len 4 ≤ tableMax := by
  obtain ⟨nodes, vacants, linked, _⟩ := holds
  have taken := linked.covers.length_eq
  have fits := linked.fits
  have len := linked.len_eq
  simp only [List.length_append, List.length_range] at taken
  have room : l.len ≤ l.capacity := by omega
  have present : l.capacity ≠ 0 := by omega
  have member : ⟨l.allocator, l.tableBytes⟩ ∈ l.tableHoldings := by
    simp [tableHoldings, present]
  obtain ⟨four, addressable⟩ := housed _ member
  have wide : l.allocator.slotSize * l.len ≤ l.tableBytes := Nat.mul_le_mul_left _ room
  rw [← Nat.mul_max_mul_left]
  exact Nat.max_le.mpr ⟨Nat.le_trans wide addressable, Nat.le_trans four addressable⟩

end SlotList

namespace Value

inductive Housed : Value → Prop
  | integer (n : Int64) : Housed (.integer n)
  | real (x : Binary64) : Housed (.real x)
  | text (b : TextBuffer) : Housed (.text b)
  | boolean (b : Bool) : Housed (.boolean b)
  | list {l : ValueList} (table : SlotList.Housed l) (each : ∀ v ∈ SlotList.elements l, Housed v) :
    Housed (.list l)

theorem housed_list {l : ValueList} {xs : List Value} (holds : Holds l xs) :
    (list l).Housed ↔ SlotList.Housed l ∧ ∀ v ∈ xs, v.Housed := by
  rw [← SlotList.elements_eq holds]
  constructor
  · intro housed
    cases housed with
    | list table each => exact ⟨table, each⟩
  · rintro ⟨table, each⟩
    exact .list table each

theorem housed_canonical {v : Value} (sound : v.Sound) (housed : v.Housed) :
    v.canonical.Housed := by
  induction sound with
  | integer n => exact housed
  | real x => exact housed
  | boolean b => exact housed
  | text sound => exact .text _
  | @list l xs holds each ih =>
    obtain ⟨table, inner⟩ := (housed_list holds).mp housed
    rw [canonical_list, SlotList.elements_eq holds]
    refine (housed_list (SlotList.holds_packed _ _)).mpr ⟨?_, ?_⟩
    · apply SlotList.housed_filled
      rw [List.length_map, ← SlotList.len_eq_length holds]
      intro present
      unfold SlotList.slotsFor at present ⊢
      split
      · rename_i vacant
        simp [vacant] at present
      · rename_i wanted
        exact ⟨Nat.le_max_right _ _, SlotList.slotsFor_addressable holds table wanted⟩
    · intro x member
      obtain ⟨v, inside, rfl⟩ := List.mem_map.mp member
      exact ih v inside (inner v inside)

variable {α β ε : Type}

def Edit.Houses (edit : Edit β) (given : List Value) (taken : β → List Value) : Prop :=
  ∀ v m, v.Sound → (∀ x ∈ v :: given, x.Housed) →
    ∀ x ∈ (edit v m).2.1 :: taken (edit v m).1, x.Housed

theorem housed_push {l : ValueList} {xs : List Value} {element : Value} (holds : Holds l xs)
    (housed : ∀ x ∈ [list l, element], x.Housed) {link : ValueList → ValueList}
    (kept : ∀ roomy, (link roomy).tableHoldings = roomy.tableHoldings) {neighbour : Option Nat}
    {m : Machine}
    (pushed : ValueList.Pushed element l xs m (SlotList.pushWith link neighbour l m)) :
    let o := ValueList.keepOrRelease element (SlotList.pushWith link neighbour l m)
    (list o.target).Housed := by
  dsimp only
  simp only [List.forall_mem_cons] at housed
  obtain ⟨list_housed, element_housed, _⟩ := housed
  obtain ⟨table, each⟩ := (housed_list holds).mp list_housed
  rw [ValueList.keepOrRelease_target]
  rcases pushed with ⟨_, ys, after, perm⟩ | ⟨_, same, _⟩
  · refine (housed_list after).mpr ⟨SlotList.housed_pushWith kept neighbour table m, ?_⟩
    intro x member
    rcases List.mem_append.mp (perm.subset member) with old | new
    · exact each x old
    · rw [List.mem_singleton.mp new]
      exact element_housed
  · rw [same]
    exact list_housed

theorem housed_handOut {l l' : ValueList} {xs xs' handed : List Value} (holds : Holds l xs)
    (after : Holds l' xs') (table : l'.tableHoldings = l.tableHoldings)
    (split : ∀ x ∈ xs' ++ handed, x ∈ xs) (housed : (list l).Housed) :
    ∀ x ∈ list l' :: handed, x.Housed := by
  obtain ⟨before, each⟩ := (housed_list holds).mp housed
  intro x member
  rcases List.mem_cons.mp member with rfl | out
  · refine (housed_list after).mpr ⟨SlotList.housed_congr table before, fun y inside => ?_⟩
    exact each y (split y (List.mem_append_left _ inside))
  · exact each x (split x (List.mem_append_right _ out))

theorem housed_onText {v : Value} (housed : v.Housed) (m : Machine)
    (work : TextBuffer → Machine → Outcome ε TextBuffer α) : (v.onText m work).target.Housed := by
  cases v with
  | text b => exact .text _
  | _ => exact housed

theorem housed_pops {l : ValueList} {xs : List Value} (holds : Holds l xs)
    (housed : (list l).Housed) :
    (∀ x ∈ list l.popFront.2 :: ValueList.handedOut l.popFront.1, x.Housed) ∧
      ∀ x ∈ list l.popBack.2 :: ValueList.handedOut l.popBack.1, x.Housed := by
  constructor
  · obtain ⟨taken, after⟩ := SlotList.popFront_eq holds
    refine housed_handOut holds after (SlotList.tableHoldings_popAt l l.head) ?_ housed
    rw [taken]
    intro x member
    cases xs with
    | nil => exact member
    | cons y ys => simpa [ValueList.handedOut, or_comm] using member
  · obtain ⟨taken, after⟩ := SlotList.popBack_eq holds
    refine housed_handOut holds after (SlotList.tableHoldings_popAt l l.tail) ?_ housed
    rw [taken]
    intro x member
    rcases xs.eq_nil_or_concat with rfl | ⟨init, y, rfl⟩
    · exact member
    · simpa [ValueList.handedOut] using member

theorem houses_editAt {edit : Edit β} {given : List Value}
    {taken : β → List Value} (houses : edit.Houses given taken) (path : List Nat) {v : Value}
    (m : Machine) (sound : v.Sound) (housed : ∀ x ∈ v :: given, x.Housed) :
    ∀ x ∈ (editAt edit path v m).target :: besides given taken (editAt edit path v m).result,
      x.Housed := by
  induction path generalizing v m with
  | nil => exact houses v m sound housed
  | cons position path ih =>
    cases sound with
    | @list l xs holds each =>
      rw [List.forall_mem_cons] at housed
      obtain ⟨table, elements⟩ := (housed_list holds).mp housed.1
      by_cases inside : position < xs.length
      -- The element at the position is edited, and all others stay in the list as they were.
      · obtain ⟨i, -, after, edits⟩ := editAt_inside holds inside
        have element := List.getElem_mem inside
        have edited := ih m (each _ element)
          (List.forall_mem_cons.mpr ⟨elements _ element, housed.2⟩)
        rw [List.forall_mem_cons] at edited
        simp only [edits, Outcome.within]
        refine List.forall_mem_cons.mpr ⟨?_, edited.2⟩
        refine (housed_list (after _)).mpr ⟨table, fun x member => ?_⟩
        rcases List.mem_or_eq_of_mem_set member with old | rfl
        · exact elements x old
        · exact edited.1
      · rw [editAt_outside holds (Nat.not_lt.mp inside)]
        exact List.forall_mem_cons.mpr housed
    | _ => exact housed

end Value
end TrackedValues
