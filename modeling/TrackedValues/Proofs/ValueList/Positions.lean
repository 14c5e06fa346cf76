import TrackedValues.Proofs.ValueList.Integrity

/-!
Positions. The slot of a position is looked for from the nearer end, along the links of one kind or
the other. Either way leads over occupied slots only and ends at the slot that the plain walk from
the head reaches, so the positions below the length number the occupied slots.
-/
namespace TrackedValues

def Slot.next? {α : Type} : Slot α → Option Nat
  | .occupied _ next _ => next
  | .vacant _ => none

def Slot.prev? {α : Type} : Slot α → Option Nat
  | .occupied prev _ _ => prev
  | .vacant _ => none

namespace SlotList
variable {α : Type} {l : SlotList α}

/-- A number of links of one kind lead from slot to slot; all slots on the way are occupied. -/
inductive Hops (link : Slot α → Option Nat) (l : SlotList α) : Nat → Nat → Nat → Prop
  | here {i : Nat} (occupied : l.IsOccupied i) : Hops link l i 0 i
  | further {i j k n : Nat} (occupied : l.IsOccupied i) (leads : l.slots[i]?.bind link = some j)
    (rest : Hops link l j n k) : Hops link l i (n + 1) k

def forward (l : SlotList α) (position : Nat) : Except Error (Option Nat) :=
  match l.head with
  | some i => l.walkNext i position
  | none => .ok none

/-- Looking for a position from the nearer end finds the slots that walking forwards finds. -/
structure FindsForward (l : SlotList α) : Prop where
  forward_eq : ∀ position, l.slotAt position = l.forward position
  absent_iff : ∀ position, l.slotAt position = .ok none ↔ l.len ≤ position
  reached : ∀ position < l.len, ∃ first last i, l.head = some first ∧ l.tail = some last ∧
    l.slotAt position = .ok (some i) ∧ Hops Slot.next? l first position i ∧
      Hops Slot.prev? l last (l.len - 1 - position) i
  injective : ∀ p < l.len, ∀ q < l.len, l.slotAt p = l.slotAt q → p = q
  occupied_iff : ∀ i, l.IsOccupied i ↔ ∃ position < l.len, l.slotAt position = .ok (some i)

theorem forward_linked {nodes : List (Nat × α)} {vacants : List Nat}
    (linked : Linked l nodes vacants) (position : Nat) :
    l.forward position = .ok (places nodes)[position]? := by
  unfold forward
  rw [linked.leads.1]
  cases nodes with
  | nil => simp [entry, places]
  | cons node rest =>
    have threaded : Threaded l.slots none ([] ++ node :: rest) none := linked.leads.2
    exact walkNext_at threaded position

section
variable {order vacants : List Nat}

theorem hops_next (linked : WellLinked l order vacants) (n k : Nat)
    (inside : k + n < order.length) : Hops Slot.next? l order[k] n order[k + n] := by
  induction n generalizing k with
  | zero => exact .here ((linked.occupied_iff _).mpr (List.getElem_mem _))
  | succ n ih =>
    have occupied := (linked.occupied_iff order[k]).mpr (List.getElem_mem _)
    obtain ⟨value, here⟩ := linked.linked k (by omega)
    have leads : l.slots[order[k]]?.bind Slot.next? = some order[k + 1] := by
      rw [here]
      exact List.getElem?_eq_getElem (by omega)
    have same : k + 1 + n = k + (n + 1) := by omega
    have rest := ih (k + 1) (by omega)
    simp only [same] at rest
    exact .further occupied leads rest

theorem hops_prev (linked : WellLinked l order vacants) (n k : Nat)
    (inside : k + n < order.length) : Hops Slot.prev? l order[k + n] n order[k] := by
  induction n with
  | zero => exact .here ((linked.occupied_iff _).mpr (List.getElem_mem _))
  | succ n ih =>
    have before : k + n < order.length := by omega
    have occupied := (linked.occupied_iff order[k + (n + 1)]).mpr (List.getElem_mem _)
    obtain ⟨value, here⟩ := linked.linked (k + (n + 1)) inside
    have leads : l.slots[order[k + (n + 1)]]?.bind Slot.prev? = some order[k + n] := by
      rw [here]
      exact List.getElem?_eq_getElem before
    exact .further occupied leads (ih before)

end

theorem findsForward_of_holds {xs : List α} (holds : Holds l xs) : l.FindsForward := by
  obtain ⟨nodes, vacants, linked, _⟩ := holds
  have found := slotAt_linked linked
  have intact := wellLinked_of_linked linked
  have walked := forward_linked linked
  generalize places nodes = order at found intact walked
  have len := intact.len_eq
  have inside (position : Nat) (below : position < order.length) :
      l.slotAt position = .ok (some order[position]) := by
    rw [found, List.getElem?_eq_getElem]
  constructor
  · intro position
    rw [found, walked]
  · intro position
    rw [found, len, Except.ok.injEq, List.getElem?_eq_none_iff]
  · intro position below
    have ahead : position < order.length := len ▸ below
    refine ⟨order[0], order[order.length - 1], order[position], ?_, ?_, inside position ahead,
      ?_, ?_⟩
    · rw [intact.head_eq, List.head?_eq_getElem?, List.getElem?_eq_getElem]
    · rw [intact.tail_eq, List.getLast?_eq_getElem?, List.getElem?_eq_getElem]
    · simpa using hops_next intact position 0 (by omega)
    · have back := hops_prev intact (order.length - 1 - position) position (by omega)
      have last : position + (order.length - 1 - position) = order.length - 1 := by omega
      simp only [last] at back
      rw [len]
      exact back
  · intro p below q below' same
    rw [inside p (len ▸ below), inside q (len ▸ below'), Except.ok.injEq, Option.some.injEq] at same
    exact (List.getElem_inj intact.nodup).mp same
  · intro i
    rw [intact.occupied_iff, List.mem_iff_getElem]
    constructor
    · rintro ⟨position, below, rfl⟩
      exact ⟨position, len ▸ below, inside position below⟩
    · rintro ⟨position, below, there⟩
      rw [inside position (len ▸ below), Except.ok.injEq, Option.some.injEq] at there
      exact ⟨position, len ▸ below, there⟩

end SlotList

namespace ValueList

/-- In every reachable state, every position is found from the nearer end as it is forwards. -/
theorem reachable_finds {l : ValueList} (reachable : Reachable l) : SlotList.FindsForward l := by
  obtain ⟨xs, holds⟩ := reachable_holds reachable
  exact SlotList.findsForward_of_holds holds

def made (actions : List (Action Value)) : ValueList :=
  actions.foldl (fun l action => (perform l (.start .system) action).2.1) (.empty .base)

theorem reachable_made (actions : List (Action Value)) : Reachable (made actions) := by
  unfold made
  generalize start : SlotList.empty .base = l
  have reachable : Reachable l := start ▸ .fresh (.empty .base)
  clear start
  induction actions generalizing l with
  | nil => exact reachable
  | cons action more ih => exact ih _ (.step reachable _ action)

def woven : ValueList :=
  made [.pushBack (.integer 1), .pushFront (.integer 2), .pushBack (.integer 3),
    .pushBack (.integer 4), .remove 2, .pushFront (.integer 5), .pushFront (.integer 6),
    .pushBack (.integer 7), .popFront]

theorem reachable_finds_woven : woven.len = 5 ∧ woven.free = some 4 ∧
    (List.range 6).map (SlotList.slotAt woven) =
      [.ok (some 2), .ok (some 1), .ok (some 0), .ok (some 3), .ok (some 5), .ok none] ∧
    SlotList.FindsForward woven :=
  ⟨rfl, rfl, rfl, reachable_finds (reachable_made _)⟩

end ValueList
end TrackedValues
