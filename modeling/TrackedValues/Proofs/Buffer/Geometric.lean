import Mathlib.Algebra.Order.BigOperators.Group.List
import Mathlib.Algebra.Order.Ring.Nat
import TrackedValues.Proofs.Buffer.Room

/-!
Growth over time. Every growth of a buffer that has storage multiplies its capacity at least by
the factor in force, and the product is never cut off. No block is larger than `blockMax`, so the
number of growths is bounded whatever is done with a buffer, and for however long.
-/
namespace TrackedValues.TextBuffer

/-- A growth that was granted, with the factor of the policy in force. -/
structure Enlargement where
  old : Nat
  new : Nat
  factor : Nat
  deriving DecidableEq, Repr

def enlargements (factor : Nat) (events : List Event) : List Enlargement :=
  events.filterMap fun
    | .bufferGrown old new _ => some ⟨old, new, factor⟩
    | _ => none

def Work.enlargements (w : Work) (b : TextBuffer) (m : Machine) : List Enlargement :=
  TextBuffer.enlargements b.policy.factor
    ((w.perform b m).machine.eventsAfter m.events.length)

/-- A turn of a run: what happens to the machine in the meantime, and then work on the buffer. -/
structure Turn where
  meanwhile : Machine → Machine
  work : Work

def run (b : TextBuffer) (m : Machine) :
    List Turn → List (Except AllocationError Unit) × TextBuffer × Machine
  | [] => ([], b, m)
  | turn :: more =>
    let o := turn.work.perform b (turn.meanwhile m)
    let rest := o.target.run o.machine more
    (o.result :: rest.1, rest.2)

/-- The growths that the turns of a run report. -/
def growths (b : TextBuffer) (m : Machine) : List Turn → List Enlargement
  | [] => []
  | turn :: more =>
    let o := turn.work.perform b (turn.meanwhile m)
    turn.work.enlargements b (turn.meanwhile m) ++ o.target.growths o.machine more

namespace Enlargement

/-- The capacity is multiplied by the factor at least, and there is a block of the new size. -/
structure Geometric (g : Enlargement) : Prop where
  longer : g.old < g.new
  addressable : g.new ≤ blockMax
  doubling : 2 ≤ g.factor
  multiplied : g.old * g.factor ≤ g.new

/-- The product is exact. A saturated one would be more than there can be in a block. -/
theorem Geometric.unsaturated {g : Enlargement} (geometric : g.Geometric) :
    saturatingMul g.old g.factor = g.old * g.factor := by
  have small : blockMax ≤ wordMax := by decide
  exact saturatingMul_exact _ _
    (Nat.le_trans geometric.multiplied (Nat.le_trans geometric.addressable small))

end Enlargement

theorem multiplied_of_goal {b : TextBuffer} {n : Nat} (addressable : b.goal n ≤ blockMax) :
    b.capacity * b.policy.factor ≤ b.goal n := by
  have cut : min (b.capacity * b.policy.factor) wordMax ≤ b.goal n := by
    unfold goal
    omega
  have small : blockMax < wordMax := by decide
  omega

inductive Grows (b : TextBuffer) : List Enlargement → Nat → Prop
  | not : Grows b [] b.capacity
  | once {g : Enlargement} (old : g.old = b.capacity) (factor : g.factor = b.policy.factor)
    (geometric : g.Geometric) : Grows b [g] g.new

theorem enlargements_unchanged (factor : Nat) (m : Machine) :
    enlargements factor (m.eventsAfter m.events.length) = [] := by
  have none : m.events = [] ++ m.events := rfl
  rw [Machine.eventsAfter_append none]
  rfl

theorem enlargements_emit (factor : Nat) {m m' : Machine} (same : m'.events = m.events)
    (e : Event) : enlargements factor ((m'.emit e).eventsAfter m.events.length) =
      enlargements factor [e] := by
  have one : (m'.emit e).events = [e] ++ m.events := congrArg (e :: ·) same
  rw [Machine.eventsAfter_append one]
  rfl

theorem grows_reserve (b : TextBuffer) (n : Nat) (m : Machine) :
    Grows b (enlargements b.policy.factor
      ((b.reserve n m).machine.eventsAfter m.events.length)) (b.reserve n m).target.capacity := by
  rcases reserve_cases b n m with ⟨_, same⟩ | ⟨_, same⟩ | ⟨_, _, same⟩ |
    ⟨short, small, block, m', granted, same⟩ | ⟨_, _, m', refused, same⟩
  · rw [same, enlargements_unchanged]
    exact .not
  · rw [same, enlargements_unchanged]
    exact .not
  · rw [same, enlargements_unchanged]
    exact .not
  · have longer := capacity_lt_goal short
    have events : m'.events = m.events := congrArg (fun answer => answer.2.events) granted.symm
    rw [same, enlargements_emit _ events, capacity_extend b _ block _ (Nat.le_of_lt longer)]
    exact .once (g := ⟨b.capacity, b.goal n, b.policy.factor⟩) rfl rfl
      ⟨longer, small, b.policy.two_le_factor, multiplied_of_goal small⟩
  · have events : m'.events = m.events := congrArg (fun answer => answer.2.events) refused.symm
    rw [same, enlargements_emit _ events]
    exact .not

theorem Work.grows_perform (w : Work) (b : TextBuffer) (m : Machine) :
    Grows b (w.enlargements b m) (w.perform b m).target.capacity := by
  unfold Work.enlargements
  cases needs : w.needs with
  | some n =>
    have reserves := w.reserves_perform needs b m
    rw [reserves.machine, reserves.capacity]
    exact grows_reserve b n m
  | none =>
    have silent : (w.perform b m).machine = m ∧ (w.perform b m).target.capacity = b.capacity := by
      cases w with
      | truncate len => exact ⟨rfl, capacity_truncate b len⟩
      | clear => exact ⟨rfl, rfl⟩
      | withPolicy policy => exact ⟨rfl, rfl⟩
      | _ => cases needs
    rw [silent.1, silent.2, enlargements_unchanged]
    exact .not

def Leads (first : Nat) : List Enlargement → Nat → Prop
  | [], last => last = first
  | g :: more, last => g.old = first ∧ g.Geometric ∧ Leads g.new more last

def factors (growths : List Enlargement) : List Nat := growths.map Enlargement.factor

theorem leads_growths (b : TextBuffer) (m : Machine) (turns : List Turn) :
    Leads b.capacity (b.growths m turns) (b.run m turns).2.1.capacity := by
  induction turns generalizing b m with
  | nil => rfl
  | cons turn more ih =>
    have rest := ih (turn.work.perform b (turn.meanwhile m)).target
      (turn.work.perform b (turn.meanwhile m)).machine
    have first := turn.work.grows_perform b (turn.meanwhile m)
    simp only [growths, run]
    generalize turn.work.enlargements b (turn.meanwhile m) = growths at first
    generalize (turn.work.perform b (turn.meanwhile m)).target.capacity = capacity at first rest
    cases first with
    | not => exact rest
    | once old factor geometric => exact ⟨old, geometric, rest⟩

theorem geometric_of_mem {first last : Nat} {growths : List Enlargement}
    (leads : Leads first growths last) {g : Enlargement} (member : g ∈ growths) :
    g.Geometric := by
  induction growths generalizing first with
  | nil => cases member
  | cons h more ih =>
    obtain ⟨_, geometric, rest⟩ := leads
    rcases List.mem_cons.mp member with rfl | later
    · exact geometric
    · exact ih rest later

theorem product_le {first last : Nat} {growths : List Enlargement}
    (leads : Leads first growths last) : first * (factors growths).prod ≤ last := by
  induction growths generalizing first with
  | nil => exact Nat.le_of_eq (by rw [leads]; exact Nat.mul_one first)
  | cons g more ih =>
    obtain ⟨old, geometric, rest⟩ := leads
    calc first * (factors (g :: more)).prod
        = g.old * g.factor * (factors more).prod := by
          rw [old, factors, List.map_cons, List.prod_cons, Nat.mul_assoc]
          rfl
      _ ≤ g.new * (factors more).prod := Nat.mul_le_mul_right _ geometric.multiplied
      _ ≤ last := ih rest

theorem pow_le_product {first last : Nat} {growths : List Enlargement}
    (leads : Leads first growths last) : 2 ^ growths.length ≤ (factors growths).prod := by
  induction growths generalizing first with
  | nil => exact Nat.le_refl 1
  | cons g more ih =>
    obtain ⟨_, geometric, rest⟩ := leads
    rw [factors, List.map_cons, List.prod_cons, List.length_cons, Nat.pow_succ']
    exact Nat.mul_le_mul geometric.doubling (ih rest)

theorem last_le_blockMax {first last : Nat} {growths : List Enlargement}
    (leads : Leads first growths last) (some : growths ≠ []) : last ≤ blockMax := by
  induction growths generalizing first with
  | nil => exact absurd rfl some
  | cons g more ih =>
    obtain ⟨_, geometric, rest⟩ := leads
    cases more with
    | nil => exact rest ▸ geometric.addressable
    | cons h more => exact ih rest (List.cons_ne_nil h more)

theorem lt_of_pow_le_blockMax {k : Nat} (small : 2 ^ k ≤ blockMax) : k < 63 := by
  have below : blockMax < 2 ^ 63 := by decide
  exact (Nat.pow_lt_pow_iff_right (by decide)).mp (Nat.lt_of_le_of_lt small below)

/--
Whatever is done with a buffer, whatever happens to the machine in the meantime, and whichever
requests are refused: each growth starts at the capacity reached so far, and multiplies it by the
factor in force without saturation. So the capacity is at least the product of all factors, and the
number of growths stays below the bits of a block size.
-/
theorem run_grows_geometrically (b : TextBuffer) (m : Machine) (turns : List Turn) :
    let growths := b.growths m turns
    let last := (b.run m turns).2.1.capacity
    Leads b.capacity growths last ∧
    (∀ g ∈ growths, g.old ≠ 0 → g.old * g.factor ≤ g.new ∧
      saturatingMul g.old g.factor = g.old * g.factor) ∧
    (1 ≤ b.capacity → b.capacity * (factors growths).prod ≤ last ∧
      b.capacity * 2 ^ growths.length ≤ b.capacity * (factors growths).prod ∧
      growths.length ≤ 62) ∧
    (b.capacity = 0 →
      (1 ≤ growths.length → 2 ^ (growths.length - 1) ≤ last) ∧ growths.length ≤ 63) := by
  intro growths last
  have leads : Leads b.capacity growths last := leads_growths b m turns
  have product := product_le leads
  have power := pow_le_product leads
  refine ⟨leads, ?_, ?_, ?_⟩
  · intro g member _
    have geometric := geometric_of_mem leads member
    exact ⟨geometric.multiplied, geometric.unsaturated⟩
  · intro present
    refine ⟨product, Nat.mul_le_mul_left _ power, ?_⟩
    by_cases none : growths = []
    · simp [none]
    · have bounded := last_le_blockMax leads none
      have grown : 1 * 2 ^ growths.length ≤ b.capacity * (factors growths).prod :=
        Nat.mul_le_mul present power
      have few : growths.length < 63 := lt_of_pow_le_blockMax (by omega)
      omega
  · intro vacant
    cases whole : growths with
    | nil => simp
    | cons g more =>
      -- The first growth gives the buffer storage; the others multiply it.
      rw [whole] at leads
      obtain ⟨_, geometric, rest⟩ := id leads
      have grown : 1 * 2 ^ more.length ≤ g.new * (factors more).prod :=
        Nat.mul_le_mul (Nat.lt_of_le_of_lt (Nat.zero_le _) geometric.longer) (pow_le_product rest)
      have reached := product_le rest
      have bounded := last_le_blockMax leads (List.cons_ne_nil g more)
      have few : more.length < 63 := lt_of_pow_le_blockMax (by omega)
      rw [List.length_cons, Nat.add_sub_cancel]
      omega

end TrackedValues.TextBuffer
