import Mathlib.Algebra.Order.Ring.Nat
import TrackedValues.Proofs.Buffer.Lengthening

/-!
Stocks of buffers. Buffers are made on one handle, worked on, copied and dropped in any order, and
limits change in between. Whatever is done with a stock lengthens one buffer at most, and leaves
all others as they are.
-/
namespace TrackedValues

structure Item where
  buffer : TextBuffer
  dropped : Bool := false

namespace Item

def capacity (i : Item) : Nat := i.buffer.capacity

def holdings (i : Item) : List Holding := if i.dropped then [] else i.buffer.holdings

end Item

/--
Buffers are numbered in the order in which they were made. One that is dropped keeps its number,
and the state in which it was dropped.
-/
abbrev Stock := List Item

namespace Stock
open TextBuffer (Work Lengthens Produces)

/-- What is done with a stock. A buffer that is made without storage is one of capacity zero. -/
inductive Dealing
  | roomy (capacity : Nat)
  | filled (bytes : List UInt8)
  | work (n : Nat) (w : Work)
  | clone (n : Nat)
  | drop (n : Nat)
  | setLimit (t : TrackerId) (limit : Option Nat)

def held? (s : Stock) (n : Nat) : Option TextBuffer :=
  match s[n]? with
  | some ⟨b, false⟩ => some b
  | _ => none

def add (s : Stock) (answer : Except AllocationError TextBuffer × Machine) :
    Outcome AllocationError Stock Unit :=
  match answer with
  | (.ok b, m) => ⟨.ok (), s ++ [⟨b, false⟩], m⟩
  | (.error e, m) => ⟨.error e, s, m⟩

def perform (a : Allocator) (d : Dealing) (s : Stock) (m : Machine) :
    Outcome AllocationError Stock Unit :=
  match d with
  | .roomy capacity => s.add (TextBuffer.withCapacity a capacity m)
  | .filled bytes => s.add (TextBuffer.ofBytes a bytes m)
  | .work n w =>
    match s.held? n with
    | none => ⟨.ok (), s, m⟩
    | some b => (w.perform b m).within fun c => s.set n ⟨c, false⟩
  | .clone n =>
    match s.held? n with
    | none => ⟨.ok (), s, m⟩
    | some b => s.add (b.duplicate m)
  | .drop n =>
    match s.held? n with
    | none => ⟨.ok (), s, m⟩
    | some b => ⟨.ok (), s.set n ⟨b, true⟩, b.release m⟩
  | .setLimit t limit => ⟨.ok (), s, { m with heap := m.heap.setLimit t limit }⟩

namespace Dealing

def number (s : Stock) : Dealing → Nat
  | work n _ => n
  | drop n => n
  | _ => s.length

def asks (s : Stock) : Dealing → Option Request
  | roomy capacity => TextBuffer.asksFresh capacity
  | filled bytes => TextBuffer.asksFresh bytes.length
  | work n w => (s.held? n).bind w.asks
  | clone n => (s.held? n).bind fun b => TextBuffer.asksFresh b.len
  | drop _ => none
  | setLimit _ _ => none

/-- The size is not a word, or is one that no block can have. -/
def Overreaches (s : Stock) : Dealing → Prop
  | roomy capacity => blockMax < capacity
  | filled bytes => blockMax < bytes.length
  | work n w => ∃ b, s.held? n = some b ∧ w.Overreaches b
  | _ => False

end Dealing

def Sound (a : Allocator) (s : Stock) : Prop :=
  ∀ i ∈ s, i.buffer.allocator = a ∧ i.buffer.Sound

def capacities (s : Stock) : List Nat := s.map Item.capacity

structure Changes (n new : Nat) (before after : List Nat) : Prop where
  here : after.getD n 0 = new
  others : ∀ k, k ≠ n → after.getD k 0 = before.getD k 0
  total : after.sum + before.getD n 0 = before.sum + new

/-- A dealing lengthens one buffer, or an empty one that is made, and leaves all others. -/
structure Turns (a : Allocator) (d : Dealing) (s : Stock) (m : Machine) (b : TextBuffer)
    (capacity : Nat) : Prop where
  allocator : b.allocator = a
  inside : b.len ≤ b.capacity
  before : s.capacities.getD (d.number s) 0 = b.capacity
  lengthens : b.Lengthens m (d.Overreaches s) (d.asks s) (s.perform a d m).result capacity
    (s.perform a d m).machine
  changes : Changes (d.number s) capacity s.capacities (s.perform a d m).target.capacities

variable {a : Allocator} {s : Stock} {m : Machine} {d : Dealing}

theorem changes_same (n : Nat) (cs : List Nat) : Changes n (cs.getD n 0) cs cs :=
  ⟨rfl, fun _ _ => rfl, rfl⟩

theorem changes_append (new : Nat) (cs : List Nat) : Changes cs.length new cs (cs ++ [new]) := by
  constructor
  · simp
  · intro k other
    simp only [List.getD_eq_getElem?_getD]
    by_cases earlier : k < cs.length
    · rw [List.getElem?_append_left earlier]
    · rw [List.getElem?_eq_none (by simpa using by omega), List.getElem?_eq_none (by omega)]
  · simp

theorem changes_set {n : Nat} {cs : List Nat} (inside : n < cs.length) (new : Nat) :
    Changes n new cs (cs.set n new) := by
  constructor
  · simp [List.getD_eq_getElem?_getD, inside]
  · intro k other
    simp [List.getD_eq_getElem?_getD, Ne.symm other]
  · obtain ⟨before, after⟩ := perm_eraseIdx (List.getElem?_eq_getElem inside)
    have before := before.sum_nat
    have after := (after new).sum_nat
    have old : cs.getD n 0 = cs[n] := by simp [List.getD_eq_getElem?_getD, inside]
    rw [List.sum_cons] at before after
    omega

theorem held?_eq_some_iff {n : Nat} {b : TextBuffer} :
    s.held? n = some b ↔ s[n]? = some ⟨b, false⟩ := by
  unfold held?
  split
  · rename_i c found
    simp [found]
  · rename_i other
    exact iff_of_false nofun (other b)

theorem exists_at (sound : s.Sound a) (n : Nat) :
    ∃ b : TextBuffer, b.allocator = a ∧ b.len ≤ b.capacity ∧
      s.capacities.getD n 0 = b.capacity := by
  cases found : s[n]? with
  | none =>
    refine ⟨TextBuffer.empty a, rfl, Nat.le_refl _, ?_⟩
    simp only [capacities, List.getD_eq_getElem?_getD, List.getElem?_map, found]
    rfl
  | some i =>
    obtain ⟨allocator, fine⟩ := sound i (List.mem_of_getElem? found)
    refine ⟨i.buffer, allocator, fine.inside, ?_⟩
    simp only [capacities, List.getD_eq_getElem?_getD, List.getElem?_map, found]
    rfl

theorem turns_quietly (sound : s.Sound a) (silent : d.asks s = none) (moderate : ¬d.Overreaches s)
    (result : (s.perform a d m).result = .ok ())
    (same : (s.perform a d m).target.capacities = s.capacities)
    (events : (s.perform a d m).machine.events = m.events)
    (asked : (s.perform a d m).machine.heap.asked = m.heap.asked)
    (stats : ∀ t, ((s.perform a d m).machine.heap.tracker t).stats.allocations =
        (m.heap.tracker t).stats.allocations ∧
      ((s.perform a d m).machine.heap.tracker t).stats.reallocations =
        (m.heap.tracker t).stats.reallocations) :
    ∃ b capacity, Turns a d s m b capacity := by
  obtain ⟨b, allocator, inside, before⟩ := exists_at sound (d.number s)
  refine ⟨b, b.capacity, allocator, inside, before, ?_, ?_⟩
  · rw [result, silent]
    exact .quiet moderate events asked stats
  · rw [same, ← before]
    exact changes_same _ _

theorem turns_add {answer : Except AllocationError TextBuffer × Machine}
    (performed : s.perform a d m = s.add answer) (number : d.number s = s.length)
    (produces : Produces a m (d.Overreaches s) (d.asks s) answer) :
    ∃ b capacity, Turns a d s m b capacity := by
  obtain ⟨capacity, lengthens, made⟩ := produces
  have behind : s.length = s.capacities.length := by simp [capacities]
  have before : s.capacities.getD (d.number s) 0 = 0 := by simp [number, behind]
  refine ⟨TextBuffer.empty a, capacity, rfl, Nat.le_refl _, before, ?_, ?_⟩
  · rw [performed]
    obtain ⟨_ | c, m'⟩ := answer <;> exact lengthens
  · rw [performed, number, behind]
    obtain ⟨e | c, m'⟩ := answer
    · have nothing : capacity = s.capacities.getD s.capacities.length 0 := by
        rw [← behind, ← number, before]
        generalize (d.asks s) = asked at lengthens
        cases lengthens <;> rfl
      rw [nothing]
      exact changes_same _ _
    · have same : (s.add (.ok c, m')).target.capacities = s.capacities ++ [capacity] := by
        simp [add, capacities, Item.capacity, (made c rfl).2]
      rw [same]
      exact changes_append _ _

theorem turns_absent (sound : s.Sound a) (silent : d.asks s = none) (moderate : ¬d.Overreaches s)
    (performed : s.perform a d m = ⟨.ok (), s, m⟩) : ∃ b capacity, Turns a d s m b capacity := by
  apply turns_quietly sound silent moderate <;> simp [performed]

theorem turns_work (sound : s.Sound a) {n : Nat} {b : TextBuffer} (found : s.held? n = some b)
    (w : Work) : ∃ b capacity, Turns a (.work n w) s m b capacity := by
  have here := held?_eq_some_iff.mp found
  obtain ⟨inside, _⟩ := List.getElem?_eq_some_iff.mp here
  obtain ⟨allocator, fine⟩ := sound _ (List.mem_of_getElem? here)
  have before : s.capacities.getD n 0 = b.capacity := by
    simp [capacities, List.getD_eq_getElem?_getD, here, Item.capacity]
  have asks : Dealing.asks s (.work n w) = w.asks b := by simp [Dealing.asks, found]
  have overreaches : Dealing.Overreaches s (.work n w) = w.Overreaches b := by
    simp [Dealing.Overreaches, found]
  refine ⟨b, (w.perform b m).target.capacity, allocator, fine.inside, before, ?_, ?_⟩
  · rw [asks, overreaches]
    simp only [perform, found]
    exact w.lengthens_perform fine m
  · simp only [perform, found, Outcome.within, capacities, List.map_set, Dealing.number]
    exact changes_set (by simpa using inside) _

theorem turns_clone (sound : s.Sound a) {n : Nat} {b : TextBuffer} (found : s.held? n = some b) :
    ∃ b capacity, Turns a (.clone n) s m b capacity := by
  obtain ⟨allocator, fine⟩ := sound _ (List.mem_of_getElem? (held?_eq_some_iff.mp found))
  have asks : Dealing.asks s (.clone n) = TextBuffer.asksFresh b.len := by
    simp [Dealing.asks, found]
  have performed : s.perform a (.clone n) m = s.add (b.duplicate m) := by
    simp only [perform, found]
  apply turns_add performed rfl
  rw [asks, ← allocator]
  exact TextBuffer.produces_duplicate fine m

theorem turns_drop (sound : s.Sound a) {n : Nat} {b : TextBuffer} (found : s.held? n = some b) :
    ∃ b capacity, Turns a (.drop n) s m b capacity := by
  have here := held?_eq_some_iff.mp found
  have performed : s.perform a (.drop n) m = ⟨.ok (), s.set n ⟨b, true⟩, b.release m⟩ := by
    simp only [perform, found]
  have same : (Stock.capacities (s.set n ⟨b, true⟩)) = s.capacities := by
    have old : s.capacities[n]? = some b.capacity := by simp [capacities, here, Item.capacity]
    obtain ⟨inside, value⟩ := List.getElem?_eq_some_iff.mp old
    rw [capacities, List.map_set]
    change s.capacities.set n b.capacity = s.capacities
    rw [← value, List.set_getElem_self]
  apply turns_quietly sound rfl id
  · rw [performed]
  · rw [performed]
    exact same
  · rw [performed]
    exact TextBuffer.events_release b m
  · rw [performed]
    exact TextBuffer.asked_release b m
  · rw [performed, TextBuffer.release_eq_giveBack]
    exact m.giveBack_requests b.holdings

theorem turns (sound : s.Sound a) (d : Dealing) (m : Machine) :
    ∃ b capacity, Turns a d s m b capacity := by
  cases d with
  | roomy capacity => exact turns_add rfl rfl (TextBuffer.produces_withCapacity a capacity m)
  | filled bytes => exact turns_add rfl rfl (TextBuffer.produces_ofBytes a bytes m)
  | work n w =>
    cases found : s.held? n with
    | none =>
      apply turns_absent sound
      · simp only [Dealing.asks, found, Option.bind_none]
      · rintro ⟨b, here, _⟩
        rw [found] at here
        cases here
      · simp only [perform, found]
    | some b => exact turns_work sound found w
  | clone n =>
    cases found : s.held? n with
    | none =>
      apply turns_absent sound
      · simp only [Dealing.asks, found, Option.bind_none]
      · exact id
      · simp only [perform, found]
    | some b => exact turns_clone sound found
  | drop n =>
    cases found : s.held? n with
    | none =>
      apply turns_absent sound rfl id
      simp only [perform, found]
    | some b => exact turns_drop sound found
  | setLimit t limit =>
    apply turns_quietly sound rfl id rfl rfl rfl rfl
    intro u
    simp only [perform, Heap.setLimit, Heap.tracker_update]
    split
    · rename_i same
      rw [same]
      exact ⟨rfl, rfl⟩
    · exact ⟨rfl, rfl⟩

def holdings (s : Stock) : List Holding := s.flatMap Item.holdings

def dropped (s : Stock) : Nat := ((s.filter Item.dropped).map Item.capacity).sum

structure Keeps (a : Allocator) (s : Stock) (m : Machine)
    (o : Outcome AllocationError Stock Unit) : Prop where
  exchanges : m.Exchanges s.holdings o.machine o.target.holdings
  sound : o.target.Sound a

theorem keeps_unchanged (sound : s.Sound a) (m : Machine) (r : Except AllocationError Unit) :
    Keeps a s m ⟨r, s, m⟩ := ⟨m.exchanges_refl _, sound⟩

theorem keeps_add (sound : s.Sound a) {answer : Except AllocationError TextBuffer × Machine}
    (made : TextBuffer.Made m answer) (allocator : ∀ c, answer.1 = .ok c → c.allocator = a) :
    Keeps a s m (s.add answer) := by
  obtain ⟨e | c, m'⟩ := answer
  · exact ⟨Machine.exchanges_beside made s.holdings, sound⟩
  · obtain ⟨fine, exchanges⟩ := made
    constructor
    · have behind : holdings (s ++ [⟨c, false⟩]) = s.holdings ++ c.holdings := by
        simp [holdings, Item.holdings]
      simp only [add, behind]
      exact Machine.exchanges_perm (Machine.exchanges_beside exchanges s.holdings)
        (List.Perm.refl _) List.perm_append_comm
    · intro i member
      rcases List.mem_append.mp member with old | new
      · exact sound i old
      · rw [List.mem_singleton.mp new]
        exact ⟨allocator c rfl, fine⟩

theorem keeps_set (sound : s.Sound a) {n : Nat} {b : TextBuffer} (found : s.held? n = some b)
    {i : Item} {m' : Machine} (r : Except AllocationError Unit)
    (exchanges : m.Exchanges b.holdings m' i.holdings)
    (fine : i.buffer.allocator = a ∧ i.buffer.Sound) : Keeps a s m ⟨r, s.set n i, m'⟩ := by
  obtain ⟨before, after⟩ := perm_eraseIdx (held?_eq_some_iff.mp found)
  constructor
  · exact Machine.exchanges_perm
      (Machine.exchanges_beside exchanges ((s.eraseIdx n).flatMap Item.holdings))
      (before.flatMap_right Item.holdings) ((after i).flatMap_right Item.holdings).symm
  · intro j member
    rcases List.mem_or_eq_of_mem_set member with old | rfl
    · exact sound j old
    · exact fine

theorem keeps_perform (sound : s.Sound a) (d : Dealing) (m : Machine) :
    Keeps a s m (s.perform a d m) := by
  cases d with
  | roomy capacity =>
    obtain ⟨_, _, made⟩ := TextBuffer.produces_withCapacity a capacity m
    exact keeps_add sound (TextBuffer.made_withCapacity a capacity m) fun c ok => (made c ok).1
  | filled bytes =>
    obtain ⟨_, _, made⟩ := TextBuffer.produces_ofBytes a bytes m
    exact keeps_add sound (TextBuffer.made_ofBytes a bytes m) fun c ok => (made c ok).1
  | work n w =>
    cases found : s.held? n with
    | none =>
      simp only [perform, found]
      exact keeps_unchanged sound m _
    | some b =>
      obtain ⟨allocator, fine⟩ := sound _ (List.mem_of_getElem? (held?_eq_some_iff.mp found))
      have keeps := w.keeps_perform b m
      simp only [perform, found]
      exact keeps_set sound found _ keeps.exchanges
        ⟨(w.allocator_perform b m).trans allocator, keeps.sound fine⟩
  | clone n =>
    cases found : s.held? n with
    | none =>
      simp only [perform, found]
      exact keeps_unchanged sound m _
    | some b =>
      obtain ⟨allocator, fine⟩ := sound _ (List.mem_of_getElem? (held?_eq_some_iff.mp found))
      obtain ⟨_, _, made⟩ := TextBuffer.produces_duplicate fine m
      simp only [perform, found]
      exact keeps_add sound (TextBuffer.made_duplicate b m) fun c ok =>
        (made c ok).1.trans allocator
  | drop n =>
    cases found : s.held? n with
    | none =>
      simp only [perform, found]
      exact keeps_unchanged sound m _
    | some b =>
      have fine := sound _ (List.mem_of_getElem? (held?_eq_some_iff.mp found))
      simp only [perform, found]
      exact keeps_set sound found _ (TextBuffer.exchanges_release b m) fine
  | setLimit t limit => exact ⟨m.exchanges_setLimit t limit s.holdings, sound⟩

/-- What a stock has been granted is held, or it was given back with the buffers that had it. -/
theorem bytes_holdings (sound : s.Sound a) {t : TrackerId} (tracked : t ∈ a.chain) :
    Holding.bytes t s.holdings + s.dropped = s.capacities.sum := by
  induction s with
  | nil => rfl
  | cons i s ih =>
    have rest := ih fun j member => sound j (List.mem_cons_of_mem i member)
    obtain ⟨allocator, _⟩ := sound i List.mem_cons_self
    have first : Holding.bytes t i.holdings + dropped [i] = i.capacity := by
      obtain ⟨b, gone⟩ := i
      cases gone with
      | true => simp [Item.holdings, dropped, Item.capacity, Holding.bytes, Holding.on]
      | false =>
        by_cases vacant : b.capacity = 0
        · simp [Item.holdings, TextBuffer.holdings, dropped, Item.capacity, vacant, Holding.bytes,
            Holding.on]
        · have here : t ∈ b.allocator.chain := allocator ▸ tracked
          simp [Item.holdings, TextBuffer.holdings, dropped, Item.capacity, vacant, here,
            Holding.bytes, Holding.on]
    have apart : dropped (i :: s) = dropped [i] + dropped s := by
      obtain ⟨b, gone⟩ := i
      cases gone <;> simp [dropped]
    have both : capacities (i :: s) = i.capacity :: capacities s := rfl
    have behind : holdings (i :: s) = i.holdings ++ holdings s := rfl
    rw [both, List.sum_cons, behind, Holding.bytes_append, apart]
    omega

end Stock
end TrackedValues
