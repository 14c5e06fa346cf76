import TrackedValues.Machine
import TrackedValues.Proofs.Memory.Admission
import TrackedValues.Proofs.Memory.Veil

/-!
What work asks of an allocator. Work that makes one request does to the heap what the request does,
and it succeeds just when the request is granted. A machine that grants nothing else tells which
request it is, so work makes at most one of them in this sense, and none if it leaves the heap.
-/
namespace TrackedValues
variable {ε ρ α : Type}

/-- The work makes one request of an allocator, and succeeds just when it is granted. -/
structure AsksFor (a : Allocator) (r : Request) (work : Machine → Outcome ε ρ α) : Prop where
  heap : ∀ m, (work m).machine.heap = (m.request a r).2.heap
  succeeds_iff : ∀ m, (∃ x, (work m).result = .ok x) ↔ (m.request a r).1.isSome

def AsksNothing (work : Machine → Outcome ε ρ α) : Prop := ∀ m, (work m).machine.heap = m.heap

def Base.only (r : Request) : Base where
  accepts _ r' := r' = r
  scratch _ _ := 0

theorem Machine.start_only_isSome_iff (r : Request) (a : Allocator) (r' : Request) :
    ((start (.only r)).request a r').1.isSome ↔ r' = r := by
  have admitted := (start (.only r)).heap.requestThrough_isSome_iff r' a.chain
  have unlimited : ∀ t ∈ a.chain, ((start (.only r)).heap.tracker t).Admits r'.extra := by
    intro t _ limit member
    cases member
  refine admitted.trans ⟨fun granted => ?_, fun same => ⟨unlimited, ?_⟩⟩
  · simpa [start, Base.only] using granted.2
  · simp [start, Base.only, same]

namespace AsksFor
variable {a : Allocator} {r : Request} {work : Machine → Outcome ε ρ α}

/-- Work asks for what it is granted whenever it succeeds, and refused whenever it fails. -/
theorem of_answers (answers : ∀ m,
    (∃ block m' x, m.request a r = (some block, m') ∧ (work m).result = .ok x ∧
      (work m).machine.heap = m'.heap) ∨
    (∃ m' e, m.request a r = (none, m') ∧ (work m).result = .error e ∧
      (work m).machine.heap = m'.heap)) : AsksFor a r work where
  heap m := by
    rcases answers m with ⟨block, m', x, granted, _, heap⟩ | ⟨m', e, refused, _, heap⟩
    · rw [granted, heap]
    · rw [refused, heap]
  succeeds_iff m := by
    rcases answers m with ⟨block, m', x, granted, succeeded, _⟩ | ⟨m', e, refused, failed, _⟩
    · rw [granted, succeeded]
      exact ⟨fun _ => rfl, fun _ => ⟨x, rfl⟩⟩
    · rw [refused, failed]
      constructor
      · rintro ⟨x, ⟨⟩⟩
      · rintro ⟨⟩

theorem not_asksNothing (asks : AsksFor a r work) : ¬AsksNothing work := by
  intro silent
  have granted := (Machine.start_only_isSome_iff r a r).mpr rfl
  obtain ⟨block, found⟩ := Option.isSome_iff_exists.mp granted
  have counted : ((Machine.start (.only r)).heap.request a r).2.asked = 0 + 1 :=
    (Heap.requestThrough_granted (Prod.ext found rfl)).2.1
  have same := congrArg Heap.asked ((asks.heap (.start (.only r))).symm.trans (silent _))
  exact Nat.succ_ne_zero 0 (counted.symm.trans same)

theorem unique (asks : AsksFor a r work) {a' : Allocator} {r' : Request}
    (other : AsksFor a' r' work) : r' = r := by
  have granted := (Machine.start_only_isSome_iff r a r).mpr rfl
  have succeeds := (asks.succeeds_iff _).mpr granted
  exact (Machine.start_only_isSome_iff r a' r').mp ((other.succeeds_iff _).mp succeeds)

end AsksFor

theorem asksFor_iff {a : Allocator} {r : Request} {work : Machine → Outcome ε ρ α} {needed : Prop}
    (asks : needed → AsksFor a r work) (silent : ¬needed → AsksNothing work) (r' : Request) :
    AsksFor a r' work ↔ needed ∧ r' = r := by
  constructor
  · intro made
    by_cases need : needed
    · exact ⟨need, (asks need).unique made⟩
    · exact absurd (silent need) made.not_asksNothing
  · rintro ⟨need, rfl⟩
    exact asks need

end TrackedValues
