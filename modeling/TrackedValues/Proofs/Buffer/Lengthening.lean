import TrackedValues.Proofs.Buffer.Room

/-!
How buffers become longer. A single step that concerns a buffer asks for storage at most once, and
it reports the answer and nothing else: this holds of all work on a buffer, and of making one.
-/
namespace TrackedValues.TextBuffer
variable {b : TextBuffer} {m m' : Machine} {asked : Option Request} {excess : Prop}

instance (b : TextBuffer) (n : Nat) : Decidable (b.Outgrows n) :=
  inferInstanceAs (Decidable ((_ ∧ _) ∧ _))

/-- More bytes would not have a length, or there is no block for them. -/
def Overreaches (b : TextBuffer) (n : Nat) : Prop :=
  wordMax < b.len + n ∨ b.Short n ∧ blockMax < b.goal n

def asks (b : TextBuffer) (n : Nat) : Option Request :=
  if b.Outgrows n then some (b.growth (b.goal n)) else none

def asksFresh (capacity : Nat) : Option Request :=
  if 0 < capacity ∧ capacity ≤ blockMax then some (.fresh capacity) else none

/--
What a single step does that concerns a buffer: the request it makes, its result, the capacity it
leads to and the machine after it. `excess` tells when it fails without asking.
-/
inductive Lengthens (b : TextBuffer) (m : Machine) (excess : Prop) :
    Option Request → Except AllocationError Unit → Nat → Machine → Prop
  | quiet {m' : Machine} (moderate : ¬excess) (events : m'.events = m.events)
    (asked : m'.heap.asked = m.heap.asked)
    (stats : ∀ t, (m'.heap.tracker t).stats.allocations = (m.heap.tracker t).stats.allocations ∧
      (m'.heap.tracker t).stats.reallocations = (m.heap.tracker t).stats.reallocations) :
    Lengthens b m excess none (.ok ()) b.capacity m'
  | excessive (excessive : excess) (e : AllocationError) :
    Lengthens b m excess none (.error e) b.capacity m
  | granted {target block : Nat} {m' : Machine} (moderate : ¬excess)
    (longer : b.capacity < target)
    (granted : m.request b.allocator (b.growth target) = (some block, m')) :
    Lengthens b m excess (some (b.growth target)) (.ok ()) target
      (m'.emit (.bufferGrown b.capacity target b.len))
  | refused {target : Nat} {m' : Machine} (moderate : ¬excess)
    (refused : m.request b.allocator (b.growth target) = (none, m')) :
    Lengthens b m excess (some (b.growth target)) (.error ⟨target⟩) b.capacity
      (m'.emit (.bufferRefused target))

theorem lengthens_nothing (moderate : ¬excess) :
    b.Lengthens m excess none (.ok ()) b.capacity m :=
  .quiet moderate rfl rfl fun _ => ⟨rfl, rfl⟩

def reported (b : TextBuffer) (asked : Option Request) (result : Except AllocationError Unit)
    (capacity : Nat) : List Event :=
  match asked, result with
  | none, _ => []
  | some _, .ok _ => [.bufferGrown b.capacity capacity b.len]
  | some _, .error e => [.bufferRefused e.requested]

theorem events_of_lengthens {result : Except AllocationError Unit} {capacity : Nat}
    (lengthens : b.Lengthens m excess asked result capacity m') :
    m'.events = b.reported asked result capacity ++ m.events := by
  cases lengthens with
  | quiet _ events _ _ => exact events
  | excessive _ _ => rfl
  | @granted _ block m' _ _ granted =>
    have events : m'.events = m.events := by rw [← m.request_events b.allocator, granted]
    exact congrArg (Event.bufferGrown b.capacity capacity b.len :: ·) events
  | @refused target m' _ refused =>
    have events : m'.events = m.events := by rw [← m.request_events b.allocator, refused]
    exact congrArg (Event.bufferRefused target :: ·) events

/-- A step that asks for something leaves the heap as the request does, and one that does not asks
for nothing on any machine. -/
theorem asksFor_iff_of_lengthens {ρ : Type} {a : Allocator}
    {work : Machine → Outcome AllocationError ρ Unit}
    (lengthens : ∀ m, ∃ b : TextBuffer, b.allocator = a ∧ ∃ capacity,
      b.Lengthens m excess asked (work m).result capacity (work m).machine) (r : Request) :
    AsksFor a r work ↔ asked = some r := by
  cases asked with
  | none =>
    refine iff_of_false (fun asks => ?_) nofun
    -- On a machine that grants the request, the base allocator would have been asked.
    have granted := (Machine.start_only_isSome_iff r a r).mpr rfl
    obtain ⟨block, found⟩ := Option.isSome_iff_exists.mp granted
    have counted : ((Machine.start (.only r)).heap.request a r).2.asked = 0 + 1 :=
      (Heap.requestThrough_granted (Prod.ext found rfl)).2.1
    have silent : (work (.start (.only r))).machine.heap.asked = 0 := by
      obtain ⟨b, _, capacity, steps⟩ := lengthens (.start (.only r))
      generalize (work (.start (.only r))).result = result at steps
      generalize (work (.start (.only r))).machine = m' at steps
      cases steps with
      | quiet _ _ same _ => exact same
      | excessive _ _ => rfl
    rw [asks.heap] at silent
    exact Nat.succ_ne_zero 0 (counted.symm.trans silent)
  | some r' =>
    have asks : AsksFor a r' work := by
      apply AsksFor.of_answers
      intro m
      obtain ⟨b, rfl, capacity, steps⟩ := lengthens m
      generalize (work m).result = result at steps
      generalize (work m).machine = m' at steps
      cases steps with
      | granted _ _ granted => exact Or.inl ⟨_, _, (), granted, rfl, rfl⟩
      | refused _ refused => exact Or.inr ⟨_, _, refused, rfl, rfl⟩
    constructor
    · intro other
      rw [asks.unique other]
    · intro same
      rw [← Option.some.inj same]
      exact asks

theorem lengthens_reserve (sound : b.Sound) (n : Nat) (m : Machine) :
    b.Lengthens m (b.Overreaches n) (b.asks n) (b.reserve n m).result
      (b.reserve n m).target.capacity (b.reserve n m).machine := by
  have moderate : b.Short n → b.goal n ≤ blockMax → ¬b.Overreaches n := by
    rintro short small (excess | ⟨_, excessive⟩)
    · exact Nat.not_lt.mpr short.2 excess
    · exact Nat.not_lt.mpr small excessive
  unfold asks
  rcases reserve_cases b n m with ⟨excess, same⟩ | ⟨fits, same⟩ | ⟨short, excessive, same⟩ |
    ⟨short, small, block, m', granted, same⟩ | ⟨short, small, m', refused, same⟩
  · rw [same, if_neg fun outgrows => Nat.not_lt.mpr outgrows.1.2 excess]
    exact .excessive (Or.inl excess) _
  · rw [same, if_neg fun outgrows => not_short_of_fits fits outgrows.1]
    apply lengthens_nothing
    rintro (excess | ⟨short, _⟩)
    · have addressable := sound.addressable
      have small : blockMax ≤ wordMax := by decide
      omega
    · exact not_short_of_fits fits short
  · rw [same, if_neg fun outgrows => Nat.not_lt.mpr outgrows.2 excessive]
    exact .excessive (Or.inr ⟨short, excessive⟩) _
  · rw [same, if_pos ⟨short, small⟩]
    have longer := capacity_lt_goal short
    simp only [capacity_extend b _ block _ (Nat.le_of_lt longer)]
    exact .granted (moderate short small) longer granted
  · rw [same, if_pos ⟨short, small⟩]
    exact .refused (moderate short small) refused

namespace Work

def asks (w : Work) (b : TextBuffer) : Option Request := w.needs.bind b.asks

def Overreaches (w : Work) (b : TextBuffer) : Prop := ∃ n, w.needs = some n ∧ b.Overreaches n

theorem lengthens_perform (w : Work) (sound : b.Sound) (m : Machine) :
    b.Lengthens m (w.Overreaches b) (w.asks b) (w.perform b m).result
      (w.perform b m).target.capacity (w.perform b m).machine := by
  unfold asks Overreaches
  cases needs : w.needs with
  | some n =>
    have reserves := w.reserves_perform needs b m
    simp only [Option.some.injEq, exists_eq_left', Option.bind_some]
    rw [reserves.result, reserves.capacity, reserves.machine]
    exact lengthens_reserve sound n m
  | none =>
    have moderate : ¬∃ n, none = some n ∧ b.Overreaches n := by
      rintro ⟨n, ⟨⟩, _⟩
    cases w with
    | truncate len =>
      simp only [perform, capacity_truncate]
      exact lengthens_nothing moderate
    | clear => exact lengthens_nothing moderate
    | withPolicy policy => exact lengthens_nothing moderate
    | _ => cases needs

end Work

def Produces (a : Allocator) (m : Machine) (excess : Prop) (asked : Option Request)
    (answer : Except AllocationError TextBuffer × Machine) : Prop :=
  ∃ capacity, (empty a).Lengthens m excess asked (answer.1.map fun _ => ()) capacity answer.2 ∧
    ∀ c, answer.1 = .ok c → c.allocator = a ∧ c.capacity = capacity

theorem asksFresh_of_small {capacity : Nat} (some : 0 < capacity) (small : capacity ≤ blockMax)
    (a : Allocator) : asksFresh capacity = .some ((empty a).growth capacity) :=
  if_pos ⟨some, small⟩

theorem produces_built {a : Allocator} {capacity : Nat} {m : Machine}
    {next : TextBuffer → Machine → Outcome AllocationError TextBuffer Unit}
    (kept : ∀ c m, c.len = 0 → c.capacity = capacity → capacity ≤ blockMax →
      (next c m).result = .ok () ∧ (next c m).machine = m ∧
        (next c m).target.capacity = capacity ∧ (next c m).target.allocator = c.allocator) :
    Produces a m (blockMax < capacity) (asksFresh capacity)
      (built (((empty a).growTo capacity m).andThen fun _ => next)) := by
  have filled : ∀ c m', c.len = 0 → c.capacity = capacity → capacity ≤ blockMax →
      built ((⟨.ok (), c, m'⟩ : Outcome AllocationError TextBuffer Unit).andThen fun _ => next) =
        (.ok (next c m').target, m') := by
    intro c m' vacant full small
    obtain ⟨result, machine, _, _⟩ := kept c m' vacant full small
    simp only [built, Outcome.andThen, result, machine]
  rcases growTo_cases (empty a) capacity m with ⟨enough, same⟩ | ⟨longer, excessive, same⟩ |
    ⟨longer, small, block, m', granted, same⟩ | ⟨longer, small, m', refused, same⟩
  · have nothing : capacity = 0 := Nat.le_zero.mp enough
    have small : capacity ≤ blockMax := by omega
    obtain ⟨_, _, full, allocator⟩ := kept (empty a) m rfl nothing.symm small
    have silent : asksFresh capacity = none := if_neg (by omega)
    rw [same, filled (empty a) m rfl nothing.symm small, silent]
    refine ⟨0, lengthens_nothing (by omega), ?_⟩
    rintro c ⟨⟩
    exact ⟨allocator, full.trans nothing⟩
  · have silent : asksFresh capacity = none := if_neg (by omega)
    rw [same, silent]
    refine ⟨0, .excessive excessive _, ?_⟩
    rintro c ⟨⟩
  · have full := capacity_extend (empty a) m.heap.base block capacity (Nat.le_of_lt longer)
    rw [same, filled _ _ rfl full small, asksFresh_of_small longer small a]
    refine ⟨capacity, .granted (by omega) longer granted, ?_⟩
    rintro c ⟨⟩
    obtain ⟨_, _, after, allocator⟩ :=
      kept _ (m'.emit (.bufferGrown (empty a).capacity capacity (empty a).len)) rfl full small
    exact ⟨allocator, after⟩
  · rw [same, asksFresh_of_small longer small a]
    refine ⟨0, .refused (by omega) refused, ?_⟩
    rintro c ⟨⟩

theorem produces_withCapacity (a : Allocator) (capacity : Nat) (m : Machine) :
    Produces a m (blockMax < capacity) (asksFresh capacity) (withCapacity a capacity m) := by
  have whole : (empty a).growTo capacity m =
      ((empty a).growTo capacity m).andThen fun _ b m => ⟨.ok (), b, m⟩ := by
    unfold Outcome.andThen
    rcases growTo_cases (empty a) capacity m with ⟨_, same⟩ | ⟨_, _, same⟩ | ⟨_, _, _, _, _, same⟩ |
      ⟨_, _, _, _, same⟩ <;> rw [same]
  rw [withCapacity, whole]
  exact produces_built fun c m _ full _ => ⟨rfl, rfl, full, rfl⟩

theorem appends_exactly {b : TextBuffer} {bytes : List UInt8} (vacant : b.len = 0)
    (full : b.capacity = bytes.length) (small : bytes.length ≤ blockMax) (m : Machine) :
    (b.append bytes m).result = .ok () ∧ (b.append bytes m).machine = m ∧
      (b.append bytes m).target.capacity = bytes.length ∧
      (b.append bytes m).target.allocator = b.allocator := by
  rw [append_exact vacant full small]
  exact ⟨rfl, rfl, List.size_toArray, rfl⟩

theorem produces_ofBytes (a : Allocator) (bytes : List UInt8) (m : Machine) :
    Produces a m (blockMax < bytes.length) (asksFresh bytes.length) (ofBytes a bytes m) :=
  produces_built fun _ m vacant full small => appends_exactly vacant full small m

theorem produces_duplicate (sound : b.Sound) (m : Machine) :
    Produces b.allocator m False (asksFresh b.len) (b.duplicate m) := by
  have length := content_length b sound.inside
  have small : b.len ≤ blockMax := Nat.le_trans sound.inside sound.addressable
  have made : Produces b.allocator m (blockMax < b.len) (asksFresh b.len) (b.duplicate m) := by
    apply produces_built
    intro c m' vacant full small
    have full : (c.withPolicy b.policy).capacity = b.content.length := full.trans length.symm
    have fits : b.content.length ≤ blockMax := length.symm ▸ small
    have appended := appends_exactly (b := c.withPolicy b.policy) vacant full fits m'
    rw [length] at appended
    exact appended
  rwa [eq_false (Nat.not_lt.mpr small)] at made

theorem events_release (b : TextBuffer) (m : Machine) : (b.release m).events = m.events := by
  unfold release
  split <;> rfl

theorem asked_release (b : TextBuffer) (m : Machine) :
    (b.release m).heap.asked = m.heap.asked := by
  unfold release
  split
  · rfl
  · exact (m.heap.releaseThrough_base b.capacity b.allocator.chain).1

theorem allocator_growTo (b : TextBuffer) (target : Nat) (m : Machine) :
    (b.growTo target m).target.allocator = b.allocator := by
  rcases growTo_cases b target m with ⟨_, same⟩ | ⟨_, _, same⟩ | ⟨_, _, _, _, _, same⟩ |
    ⟨_, _, _, _, same⟩
  · rw [same]
  · rw [same]
  · rw [same]
    rfl
  · rw [same]

theorem allocator_reserve (b : TextBuffer) (n : Nat) (m : Machine) :
    (b.reserve n m).target.allocator = b.allocator := by
  simp only [reserve]
  split
  · rfl
  · split
    · rfl
    · exact allocator_growTo b _ m

theorem allocator_append (b : TextBuffer) (bytes : List UInt8) (m : Machine) :
    (b.append bytes m).target.allocator = b.allocator := by
  have kept := allocator_reserve b bytes.length m
  unfold append Outcome.andThen
  split <;> exact kept

theorem allocator_truncate (b : TextBuffer) (len : Nat) :
    (b.truncate len).allocator = b.allocator := by
  unfold truncate
  split <;> rfl

theorem Work.allocator_perform (w : Work) (b : TextBuffer) (m : Machine) :
    (w.perform b m).target.allocator = b.allocator := by
  cases w with
  | append bytes => exact allocator_append b bytes m
  | appendText text => exact allocator_append b (Utf8.encode text) m
  | push byte => exact allocator_append b [byte] m
  | writeText text => exact allocator_append b (Utf8.encode text) m
  | reserve additional => exact allocator_reserve b additional m
  | truncate len => exact allocator_truncate b len
  | clear => rfl
  | withPolicy policy => rfl

end TrackedValues.TextBuffer
