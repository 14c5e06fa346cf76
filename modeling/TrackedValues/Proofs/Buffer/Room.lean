import TrackedValues.Proofs.Buffer.Shelf
import TrackedValues.Proofs.Memory.Asking

/-!
Room for more bytes. A buffer that more bytes do not fit grows to the goal of its policy, by one
request, and it fails for one of three reasons: the sum of the lengths is not a word, there is no
block of that size, or the allocator refuses it. Failing changes nothing at all.
-/
namespace TrackedValues
namespace TextBuffer

def goal (b : TextBuffer) (n : Nat) : Nat :=
  max (max (min (b.capacity * b.policy.factor) wordMax) (b.len + n)) b.policy.leastCapacity

/-- More bytes do not fit, though the length would still be a word. -/
def Short (b : TextBuffer) (n : Nat) : Prop := b.capacity < b.len + n ∧ b.len + n ≤ wordMax

/-- Why `n` more bytes find no room, with the size that is reported. -/
inductive Lacks (b : TextBuffer) (n : Nat) (m : Machine) : Nat → Prop
  | overflow (excessive : wordMax < b.len + n) : Lacks b n m wordMax
  | unaddressable (short : b.Short n) (excessive : blockMax < b.goal n) : Lacks b n m (b.goal n)
  | refused (short : b.Short n) (addressable : b.goal n ≤ blockMax)
    (refused : (m.request b.allocator (b.growth (b.goal n))).1 = none) : Lacks b n m (b.goal n)

variable {b : TextBuffer} {n : Nat}

theorem not_short_of_fits (fits : b.len + n ≤ b.capacity) : ¬b.Short n :=
  fun short => Nat.not_lt.mpr fits short.1

theorem capacity_lt_goal (short : b.Short n) : b.capacity < b.goal n := by
  have short := short.1
  unfold goal
  omega

theorem reserve_overflow (excess : wordMax < b.len + n) (m : Machine) :
    b.reserve n m = ⟨.error ⟨wordMax⟩, b, m⟩ := if_pos excess

theorem reserve_short (short : b.Short n) (m : Machine) :
    b.reserve n m = b.growTo (b.goal n) m :=
  (if_neg (Nat.not_lt.mpr short.2)).trans (if_neg (Nat.not_le.mpr short.1))

/-- Reserving answers in one of five ways; only in the last two the allocator is asked. -/
theorem reserve_cases (b : TextBuffer) (n : Nat) (m : Machine) :
    (wordMax < b.len + n ∧ b.reserve n m = ⟨.error ⟨wordMax⟩, b, m⟩) ∨
    (b.len + n ≤ b.capacity ∧ b.reserve n m = ⟨.ok (), b, m⟩) ∨
    (b.Short n ∧ blockMax < b.goal n ∧ b.reserve n m = ⟨.error ⟨b.goal n⟩, b, m⟩) ∨
    (b.Short n ∧ b.goal n ≤ blockMax ∧ ∃ block m',
      m.request b.allocator (b.growth (b.goal n)) = (some block, m') ∧
      b.reserve n m = ⟨.ok (), b.extend m.heap.base block (b.goal n),
        m'.emit (.bufferGrown b.capacity (b.goal n) b.len)⟩) ∨
    (b.Short n ∧ b.goal n ≤ blockMax ∧ ∃ m',
      m.request b.allocator (b.growth (b.goal n)) = (none, m') ∧
      b.reserve n m = ⟨.error ⟨b.goal n⟩, b, m'.emit (.bufferRefused (b.goal n))⟩) := by
  by_cases excess : wordMax < b.len + n
  · exact Or.inl ⟨excess, reserve_overflow excess m⟩
  · by_cases fits : b.len + n ≤ b.capacity
    · exact Or.inr (Or.inl ⟨fits, (if_neg excess).trans (if_pos fits)⟩)
    · have short : b.Short n := ⟨Nat.not_le.mp fits, Nat.not_lt.mp excess⟩
      rw [reserve_short short]
      rcases growTo_cases b (b.goal n) m with ⟨enough, _⟩ | ⟨_, unaddressable, same⟩ |
        ⟨_, addressable, block, m', granted, grown⟩ | ⟨_, addressable, m', refused, same⟩
      · exact absurd (capacity_lt_goal short) (Nat.not_lt.mpr enough)
      · exact Or.inr (Or.inr (Or.inl ⟨short, unaddressable, same⟩))
      · exact Or.inr (Or.inr (Or.inr (Or.inl ⟨short, addressable, block, m', granted, grown⟩)))
      · exact Or.inr (Or.inr (Or.inr (Or.inr ⟨short, addressable, m', refused, same⟩)))

theorem lacks_of_failed {m : Machine} {e : AllocationError}
    (failed : (b.reserve n m).result = .error e) : b.Lacks n m e.requested := by
  rcases reserve_cases b n m with ⟨excess, same⟩ | ⟨_, same⟩ | ⟨short, excessive, same⟩ |
    ⟨_, _, block, m', _, same⟩ | ⟨short, small, m', refused, same⟩
  · rw [same] at failed
    cases failed
    exact .overflow excess
  · rw [same] at failed
    cases failed
  · rw [same] at failed
    cases failed
    exact .unaddressable short excessive
  · rw [same] at failed
    cases failed
  · rw [same] at failed
    cases failed
    exact .refused short small (congrArg Prod.fst refused)

theorem failed_of_lacks {m : Machine} {size : Nat} (lacks : b.Lacks n m size) :
    (b.reserve n m).result = .error ⟨size⟩ := by
  cases lacks with
  | overflow excess => rw [reserve_overflow excess]
  | unaddressable short excessive =>
    have longer := Nat.not_le.mpr (capacity_lt_goal short)
    rw [reserve_short short, growTo, if_neg longer, if_pos excessive]
  | refused short small refused =>
    have longer := Nat.not_le.mpr (capacity_lt_goal short)
    rw [reserve_short short, growTo, if_neg longer, if_neg (Nat.not_lt.mpr small)]
    split
    · rename_i granted
      rw [granted] at refused
      cases refused
    · rfl

theorem reserve_failed_iff (b : TextBuffer) (n : Nat) (m : Machine) (e : AllocationError) :
    (b.reserve n m).result = .error e ↔ b.Lacks n m e.requested :=
  ⟨lacks_of_failed, failed_of_lacks⟩

theorem reserve_failed {m : Machine} {e : AllocationError}
    (failed : (b.reserve n m).result = .error e) :
    (b.reserve n m).target = b ∧
      ∀ t, (b.reserve n m).machine.heap.tracker t = m.heap.tracker t := by
  rcases reserve_cases b n m with ⟨_, same⟩ | ⟨_, same⟩ | ⟨_, _, same⟩ |
    ⟨_, _, block, m', _, same⟩ | ⟨_, _, m', refused, same⟩
  · rw [same]
    exact ⟨rfl, fun _ => rfl⟩
  · rw [same]
    exact ⟨rfl, fun _ => rfl⟩
  · rw [same]
    exact ⟨rfl, fun _ => rfl⟩
  · rw [same] at failed
    cases failed
  · rw [same]
    exact ⟨rfl, fun t => Machine.tracker_refused refused t⟩

theorem reserve_capacity {m : Machine} (reserved : (b.reserve n m).result = .ok ()) :
    (b.reserve n m).target.capacity =
      if b.len + n ≤ b.capacity then b.capacity else b.goal n := by
  rcases reserve_cases b n m with ⟨_, same⟩ | ⟨fits, same⟩ | ⟨_, _, same⟩ |
    ⟨short, _, block, m', _, same⟩ | ⟨_, _, m', _, same⟩
  · rw [same] at reserved
    cases reserved
  · rw [same, if_pos fits]
  · rw [same] at reserved
    cases reserved
  · rw [same, if_neg fun fits => not_short_of_fits fits short]
    exact capacity_extend b _ block _ (Nat.le_of_lt (capacity_lt_goal short))
  · rw [same] at reserved
    cases reserved

def Outgrows (b : TextBuffer) (n : Nat) : Prop := b.Short n ∧ b.goal n ≤ blockMax

theorem asksFor_reserve (outgrows : b.Outgrows n) :
    AsksFor b.allocator (b.growth (b.goal n)) (b.reserve n) := by
  obtain ⟨short, small⟩ := outgrows
  apply AsksFor.of_answers
  intro m
  rcases reserve_cases b n m with ⟨excess, _⟩ | ⟨fits, _⟩ | ⟨_, excessive, _⟩ |
    ⟨_, _, block, m', granted, same⟩ | ⟨_, _, m', refused, same⟩
  · exact absurd excess (Nat.not_lt.mpr short.2)
  · exact absurd short (not_short_of_fits fits)
  · exact absurd excessive (Nat.not_lt.mpr small)
  · rw [same]
    exact Or.inl ⟨block, m', (), granted, rfl, rfl⟩
  · rw [same]
    exact Or.inr ⟨m', _, refused, rfl, rfl⟩

theorem asksNothing_reserve (enough : ¬b.Outgrows n) : AsksNothing (b.reserve n) := by
  intro m
  rcases reserve_cases b n m with ⟨_, same⟩ | ⟨_, same⟩ | ⟨_, _, same⟩ |
    ⟨short, small, _⟩ | ⟨short, small, _⟩
  · rw [same]
  · rw [same]
  · rw [same]
  · exact absurd ⟨short, small⟩ enough
  · exact absurd ⟨short, small⟩ enough

def Work.needs : Work → Option Nat
  | append bytes => some bytes.length
  | appendText text => some (Utf8.encode text).length
  | push _ => some 1
  | writeText text => some (Utf8.encode text).length
  | reserve additional => some additional
  | truncate _ => none
  | clear => none
  | withPolicy _ => none

structure Reserves (n : Nat) (b : TextBuffer) (m : Machine)
    (o : Outcome AllocationError TextBuffer Unit) : Prop where
  result : o.result = (b.reserve n m).result
  machine : o.machine = (b.reserve n m).machine
  capacity : o.target.capacity = (b.reserve n m).target.capacity
  failed : ∀ e, o.result = .error e → o.target = (b.reserve n m).target

theorem reserves_append (b : TextBuffer) (bytes : List UInt8) (m : Machine) :
    Reserves bytes.length b m (b.append bytes m) := by
  unfold append Outcome.andThen
  cases reserved : (b.reserve bytes.length m).result with
  | ok _ => exact ⟨reserved.symm, rfl, capacity_write _ bytes, fun _ failed => nomatch failed⟩
  | error _ => exact ⟨reserved.symm, rfl, rfl, fun _ _ => rfl⟩

theorem Work.reserves_perform {w : Work} (needs : w.needs = some n) (b : TextBuffer)
    (m : Machine) : Reserves n b m (w.perform b m) := by
  cases w with
  | append bytes =>
    cases needs
    exact reserves_append b bytes m
  | appendText text =>
    cases needs
    exact reserves_append b (Utf8.encode text) m
  | push byte =>
    cases needs
    exact reserves_append b [byte] m
  | writeText text =>
    cases needs
    exact reserves_append b (Utf8.encode text) m
  | reserve additional =>
    cases needs
    exact ⟨rfl, rfl, rfl, fun _ _ => rfl⟩
  | truncate len => cases needs
  | clear => cases needs
  | withPolicy policy => cases needs

/-- How work that needs room for `n` more bytes finds it, whatever the allocator does. -/
structure MakesRoom (b : TextBuffer) (w : Work) (n : Nat) : Prop where
  failed_iff : ∀ m e, (w.perform b m).result = .error e ↔ b.Lacks n m e.requested
  unchanged : ∀ m e, (w.perform b m).result = .error e → (w.perform b m).target = b ∧
    ∀ t, (w.perform b m).machine.heap.tracker t = m.heap.tracker t
  room : ∀ m, (w.perform b m).result = .ok () →
    b.len + n ≤ (w.perform b m).target.capacity ∧
      (w.perform b m).target.capacity ≤ blockMax
  capacity : ∀ m, (w.perform b m).result = .ok () → (w.perform b m).target.capacity =
    if b.len + n ≤ b.capacity then b.capacity else b.goal n
  content : ∀ m, (w.perform b m).result = .ok () →
    (w.perform b m).target.content = w.effect b.content
  asks_iff : ∀ r, AsksFor b.allocator r (w.perform b) ↔ b.Outgrows n ∧
    r = if b.capacity = 0 then .fresh (b.goal n) else .grow b.capacity (b.goal n)
  silent : ¬b.Outgrows n → AsksNothing (w.perform b)
  sum_exact : b.len + n ≤ wordMax →
    (UInt64.ofNat b.len + UInt64.ofNat n).toNat = b.len + n
  goal_word : b.len + n ≤ wordMax → b.policy.leastCapacity ≤ wordMax → b.goal n ≤ wordMax

theorem makesRoom (sound : b.Sound) {w : Work} (needs : w.needs = some n) : b.MakesRoom w n := by
  have reserves := w.reserves_perform needs b
  constructor
  · intro m e
    rw [(reserves m).result]
    exact reserve_failed_iff b n m e
  · intro m e failed
    rw [(reserves m).failed e failed, (reserves m).machine]
    exact reserve_failed ((reserves m).result.symm.trans failed)
  · intro m succeeded
    rw [(reserves m).capacity]
    have reserved := (reserves m).result.symm.trans succeeded
    exact ⟨reserve_room reserved, ((keeps_reserve b n m).sound sound).addressable⟩
  · intro m succeeded
    rw [(reserves m).capacity]
    exact reserve_capacity ((reserves m).result.symm.trans succeeded)
  · intro m succeeded
    rw [w.content_perform sound.inside m, succeeded]
  · refine asksFor_iff (fun outgrows => ?_) fun enough => ?_
    · have asks : AsksFor b.allocator
          (if b.capacity = 0 then .fresh (b.goal n) else .grow b.capacity (b.goal n))
          (b.reserve n) := asksFor_reserve outgrows
      exact ⟨fun m => by rw [(reserves m).machine, asks.heap],
        fun m => by rw [(reserves m).result, asks.succeeds_iff]⟩
    · exact fun m => by rw [(reserves m).machine, asksNothing_reserve enough]
  · intro enough m
    rw [(reserves m).machine, asksNothing_reserve enough]
  · intro word
    have below : b.len + n < UInt64.size := Nat.lt_succ_of_le word
    rw [UInt64.toNat_add, UInt64.toNat_ofNat_of_lt' (by omega),
      UInt64.toNat_ofNat_of_lt' (by omega)]
    exact Nat.mod_eq_of_lt below
  · intro word least
    unfold goal
    omega

end TextBuffer

namespace Shelf
open TextBuffer (Work)

/--
Whatever has been done with some buffers on a machine, work on any of them that needs room for more
bytes fails exactly when it must, and it is all or nothing.
-/
theorem run_makes_room (m : Machine) (work : List Handling) {b : TextBuffer}
    (made : b ∈ (run ⟨m, []⟩ work).2.buffers) {w : Work} {n : Nat} (needs : w.needs = some n) :
    b.MakesRoom w n := by
  have nothing : Sound ⟨m, []⟩ := by
    intro c member
    cases member
  exact TextBuffer.makesRoom (sound_run nothing work b made) needs

def fitted : List Handling :=
  [.filled (.tracked 0) [97, 98], .work 0 (.withPolicy (.make 3 16))]

theorem run_makes_room_fitted :
    ∃ b, (run ⟨.start .system, []⟩ fitted).2.buffers = [b] ∧ b.capacity = 2 ∧ b.goal 5 = 16 ∧
      b.Outgrows 5 ∧ b.MakesRoom (.append [99, 100, 101, 102, 103]) 5 := by
  obtain ⟨b, only, capacity, goal, len⟩ : ∃ b,
      (run ⟨.start .system, []⟩ fitted).2.buffers = [b] ∧ b.capacity = 2 ∧ b.goal 5 = 16 ∧
        b.len = 2 := ⟨_, rfl, rfl, rfl, rfl⟩
  have made : b ∈ (run ⟨.start .system, []⟩ fitted).2.buffers := by simp [only]
  refine ⟨b, only, capacity, goal, ⟨⟨?_, ?_⟩, ?_⟩, run_makes_room (.start .system) fitted made rfl⟩
  · omega
  · rw [len]
    decide
  · rw [goal]
    decide

end Shelf
end TrackedValues
