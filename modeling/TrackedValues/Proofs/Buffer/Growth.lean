import TrackedValues.Buffer.Basic
import TrackedValues.Proofs.Memory.Holdings

/-!
Growth of text buffers. A buffer holds one block, of the size of its capacity, unless the capacity
is zero. Every operation that may grow it exchanges that block for a longer one or leaves it, and
keeps the content inside the storage.
-/
namespace TrackedValues.TextBuffer
variable {α ε : Type}

/-- The content lies inside the storage, which is no larger than a block can be. -/
structure Sound (b : TextBuffer) : Prop where
  inside : b.len ≤ b.capacity
  addressable : b.capacity ≤ blockMax

def holdings (b : TextBuffer) : List Holding :=
  if b.capacity = 0 then [] else [⟨b.allocator, b.capacity⟩]

theorem sound_empty (a : Allocator) : (empty a).Sound := ⟨Nat.le_refl _, Nat.zero_le _⟩

theorem holdings_empty (a : Allocator) : (empty a).holdings = [] := rfl

theorem holdings_congr {b c : TextBuffer} (allocator : b.allocator = c.allocator)
    (capacity : b.capacity = c.capacity) : b.holdings = c.holdings := by
  simp [holdings, allocator, capacity]

theorem growTo_cases (b : TextBuffer) (target : Nat) (m : Machine) :
    (target ≤ b.capacity ∧ b.growTo target m = ⟨.ok (), b, m⟩) ∨
    (b.capacity < target ∧ blockMax < target ∧ b.growTo target m = ⟨.error ⟨target⟩, b, m⟩) ∨
    (b.capacity < target ∧ target ≤ blockMax ∧ ∃ block m',
      m.request b.allocator (b.growth target) = (some block, m') ∧
      b.growTo target m = ⟨.ok (), b.extend m.heap.base block target,
        m'.emit (.bufferGrown b.capacity target b.len)⟩) ∨
    (b.capacity < target ∧ target ≤ blockMax ∧ ∃ m',
      m.request b.allocator (b.growth target) = (none, m') ∧
      b.growTo target m = ⟨.error ⟨target⟩, b, m'.emit (.bufferRefused target)⟩) := by
  unfold growTo
  split
  · rename_i enough
    exact Or.inl ⟨enough, rfl⟩
  · rename_i short
    have short := Nat.not_le.mp short
    split
    · rename_i excessive
      exact Or.inr (Or.inl ⟨short, excessive, rfl⟩)
    · rename_i addressable
      have addressable := Nat.not_lt.mp addressable
      split
      · rename_i block m' found
        exact Or.inr (Or.inr (Or.inl ⟨short, addressable, block, m', found, rfl⟩))
      · rename_i m' found
        exact Or.inr (Or.inr (Or.inr ⟨short, addressable, m', found, rfl⟩))

/-- What every operation on a buffer does to its storage: it keeps or replaces the block it holds. -/
structure Keeps (b : TextBuffer) (m : Machine) (o : Outcome ε TextBuffer α) : Prop where
  exchanges : m.Exchanges b.holdings o.machine o.target.holdings
  sound : b.Sound → o.target.Sound

theorem keeps_unchanged (b : TextBuffer) (m : Machine) (r : Except ε α) : b.Keeps m ⟨r, b, m⟩ :=
  ⟨m.exchanges_refl _, id⟩

theorem keeps_growTo (b : TextBuffer) (target : Nat) (m : Machine) :
    b.Keeps m (b.growTo target m) := by
  rcases growTo_cases b target m with ⟨_, same⟩ | ⟨_, _, same⟩ |
    ⟨short, addressable, block, m', granted, grown⟩ | ⟨_, _, m', refused, same⟩
  · rw [same]
    exact keeps_unchanged b m _
  · rw [same]
    exact keeps_unchanged b m _
  · rw [grown]
    have capacity := capacity_extend b m.heap.base block target (Nat.le_of_lt short)
    have after : (b.extend m.heap.base block target).holdings = [⟨b.allocator, target⟩] := by
      have positive : target ≠ 0 := by omega
      rw [holdings, capacity, if_neg positive]
      rfl
    refine ⟨?_, fun sound => ⟨?_, ?_⟩⟩
    · rw [after]
      unfold growth at granted
      split at granted
      · rename_i vacant
        rw [holdings, if_pos vacant]
        exact (Machine.exchanges_fresh granted : m.Exchanges [] m' [⟨b.allocator, target⟩])
      · rename_i present
        rw [holdings, if_neg present]
        have exchanges := Machine.exchanges_grow (Nat.le_of_lt short) granted
        exact (exchanges : m.Exchanges _ m' [⟨b.allocator, target⟩])
    · rw [capacity]
      exact Nat.le_trans sound.inside (Nat.le_of_lt short)
    · rw [capacity]
      exact addressable
  · rw [same]
    exact ⟨(Machine.exchanges_refused refused _ : m.Exchanges _ m' _), id⟩

theorem growTo_len (b : TextBuffer) (target : Nat) (m : Machine) :
    (b.growTo target m).target.len = b.len := by
  rcases growTo_cases b target m with ⟨_, same⟩ | ⟨_, _, same⟩ |
    ⟨_, _, _, _, _, same⟩ | ⟨_, _, _, _, same⟩ <;> simp only [same, extend]

theorem growTo_room {b : TextBuffer} {target : Nat} {m : Machine}
    (grown : (b.growTo target m).result = .ok ()) :
    target ≤ (b.growTo target m).target.capacity := by
  rcases growTo_cases b target m with ⟨enough, same⟩ | ⟨_, _, same⟩ |
    ⟨short, _, block, _, _, same⟩ | ⟨_, _, _, _, same⟩
  · rw [same]
    exact enough
  · simp [same] at grown
  · rw [same]
    exact Nat.le_of_eq (capacity_extend b _ block target (Nat.le_of_lt short)).symm
  · simp [same] at grown

theorem keeps_reserve (b : TextBuffer) (additional : Nat) (m : Machine) :
    b.Keeps m (b.reserve additional m) := by
  simp only [reserve]
  split
  · exact keeps_unchanged b m _
  · split
    · exact keeps_unchanged b m _
    · exact keeps_growTo b _ m

theorem reserve_len (b : TextBuffer) (additional : Nat) (m : Machine) :
    (b.reserve additional m).target.len = b.len := by
  simp only [reserve]
  split
  · rfl
  · split
    · rfl
    · exact growTo_len b _ m

theorem reserve_room {b : TextBuffer} {additional : Nat} {m : Machine}
    (reserved : (b.reserve additional m).result = .ok ()) :
    b.len + additional ≤ (b.reserve additional m).target.capacity := by
  simp only [reserve] at *
  split
  · rename_i excessive
    simp [excessive] at reserved
  · rename_i addressable
    simp only [addressable, ↓reduceIte] at reserved
    split
    · assumption
    · rename_i short
      simp only [short, ↓reduceIte] at reserved
      have grown := growTo_room reserved
      exact Nat.le_trans (b.policy.required_le_nextCapacity b.capacity _) grown

theorem keeps_andThen {β : Type} {b : TextBuffer} {m : Machine} {o : Outcome ε TextBuffer α}
    (keeps : b.Keeps m o) (next : α → TextBuffer → Machine → Outcome ε TextBuffer β)
    (further : ∀ a, o.result = .ok a → o.target.Keeps o.machine (next a o.target o.machine)) :
    b.Keeps m (o.andThen next) := by
  unfold Outcome.andThen
  split
  · rename_i a succeeded
    have later := further a succeeded
    exact ⟨Machine.exchanges_trans keeps.exchanges later.exchanges, later.sound ∘ keeps.sound⟩
  · exact ⟨keeps.exchanges, keeps.sound⟩

theorem keeps_write {b : TextBuffer} {bytes : List UInt8}
    (room : b.len + bytes.length ≤ b.capacity) (m : Machine) (r : Except ε α) :
    b.Keeps m ⟨r, b.write bytes, m⟩ := by
  have same : (b.write bytes).holdings = b.holdings := holdings_congr rfl (capacity_write b bytes)
  refine ⟨?_, fun sound => ⟨?_, ?_⟩⟩
  · rw [same]
    exact m.exchanges_refl _
  · rw [capacity_write]
    exact room
  · rw [capacity_write]
    exact sound.addressable

theorem keeps_append (b : TextBuffer) (bytes : List UInt8) (m : Machine) :
    b.Keeps m (b.append bytes m) := by
  apply keeps_andThen (keeps_reserve b bytes.length m)
  intro _ reserved
  apply keeps_write
  rw [reserve_len]
  exact reserve_room reserved

theorem keeps_appendAll (b : TextBuffer) (pieces : List (List UInt8)) (m : Machine) :
    b.Keeps m (b.appendAll pieces m) := by
  induction pieces generalizing b m with
  | nil => exact keeps_unchanged b m _
  | cons piece more ih => exact keeps_andThen (keeps_append b piece m) _ fun _ _ => ih _ _

theorem keeps_change (b c : TextBuffer) (allocator : c.allocator = b.allocator)
    (storage : c.storage = b.storage) (shorter : c.len ≤ b.len) (m : Machine) (r : Except ε α) :
    b.Keeps m ⟨r, c, m⟩ := by
  have capacity : c.capacity = b.capacity := by rw [TextBuffer.capacity, TextBuffer.capacity, storage]
  refine ⟨?_, fun sound => ⟨?_, ?_⟩⟩
  · rw [holdings_congr allocator capacity]
    exact m.exchanges_refl _
  · rw [capacity]
    exact Nat.le_trans shorter sound.inside
  · rw [capacity]
    exact sound.addressable

theorem keeps_truncate (b : TextBuffer) (len : Nat) (m : Machine) (r : Except ε α) :
    b.Keeps m ⟨r, b.truncate len, m⟩ := by
  unfold truncate
  split
  · rename_i shorter
    exact keeps_change b { b with len := len } rfl rfl (Nat.le_of_lt shorter) m r
  · exact keeps_unchanged b m r

theorem release_eq_giveBack (b : TextBuffer) (m : Machine) :
    b.release m = m.giveBack b.holdings := by
  unfold holdings release
  split <;> rfl

theorem exchanges_release (b : TextBuffer) (m : Machine) :
    m.Exchanges b.holdings (b.release m) [] := by
  rw [release_eq_giveBack]
  exact m.exchanges_giveBack _

/-- A machine gains the holdings of what it made, or nothing when it could not make it. -/
def Made (m : Machine) (answer : Except ε TextBuffer × Machine) : Prop :=
  match answer with
  | (.ok b, m') => b.Sound ∧ m.Exchanges [] m' b.holdings
  | (.error _, m') => m.Exchanges [] m' []

theorem made_built {b : TextBuffer} {m : Machine} {o : Outcome AllocationError TextBuffer Unit}
    (keeps : b.Keeps m o) (sound : b.Sound) (fresh : b.holdings = []) : Made m (built o) := by
  have exchanges := keeps.exchanges
  rw [fresh] at exchanges
  unfold built
  split
  · exact ⟨keeps.sound sound, exchanges⟩
  · exact Machine.exchanges_trans exchanges (exchanges_release o.target o.machine)

theorem made_withCapacity (a : Allocator) (capacity : Nat) (m : Machine) :
    Made m (withCapacity a capacity m) :=
  made_built (keeps_growTo (empty a) capacity m) (sound_empty a) (holdings_empty a)

theorem made_ofBytes (a : Allocator) (bytes : List UInt8) (m : Machine) :
    Made m (ofBytes a bytes m) := by
  apply made_built (b := empty a) _ (sound_empty a) (holdings_empty a)
  exact keeps_andThen (keeps_growTo _ _ m) _ fun _ _ => keeps_append _ _ _

theorem made_duplicate (b : TextBuffer) (m : Machine) : Made m (b.duplicate m) := by
  apply made_built (b := empty b.allocator) _ (sound_empty _) (holdings_empty _)
  apply keeps_andThen (keeps_growTo _ _ m)
  intro _ _
  have policy := keeps_append ((((empty b.allocator).growTo b.len m).target).withPolicy b.policy)
    b.content ((empty b.allocator).growTo b.len m).machine
  exact ⟨policy.exchanges, fun sound => policy.sound ⟨sound.inside, sound.addressable⟩⟩

end TrackedValues.TextBuffer
