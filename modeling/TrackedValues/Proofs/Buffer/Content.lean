import TrackedValues.Proofs.Buffer.Growth
import TrackedValues.Text.Utf8

/-!
What work on a text buffer does to its content and its capacity. Growth moves the content into
longer storage, an append that succeeds puts its bytes behind it, and work that fails changes
neither. No work gives storage up.
-/
namespace TrackedValues.TextBuffer

variable {b : TextBuffer}

theorem content_growTo (inside : b.len ≤ b.capacity) (target : Nat) (m : Machine) :
    (b.growTo target m).target.content = b.content := by
  rcases growTo_cases b target m with ⟨_, same⟩ | ⟨_, _, same⟩ |
    ⟨_, _, block, _, _, same⟩ | ⟨_, _, _, _, same⟩ <;> rw [same]
  exact content_extend b _ block target inside

theorem capacity_le_growTo (b : TextBuffer) (target : Nat) (m : Machine) :
    b.capacity ≤ (b.growTo target m).target.capacity := by
  rcases growTo_cases b target m with ⟨_, same⟩ | ⟨_, _, same⟩ |
    ⟨short, _, block, _, _, same⟩ | ⟨_, _, _, _, same⟩
  · exact Nat.le_of_eq (by rw [same])
  · exact Nat.le_of_eq (by rw [same])
  · rw [same]
    dsimp only
    rw [capacity_extend b _ block target (Nat.le_of_lt short)]
    exact Nat.le_of_lt short
  · exact Nat.le_of_eq (by rw [same])

theorem content_reserve (inside : b.len ≤ b.capacity) (additional : Nat) (m : Machine) :
    (b.reserve additional m).target.content = b.content := by
  simp only [reserve]
  split
  · rfl
  · split
    · rfl
    · exact content_growTo inside _ m

theorem capacity_le_reserve (b : TextBuffer) (additional : Nat) (m : Machine) :
    b.capacity ≤ (b.reserve additional m).target.capacity := by
  simp only [reserve]
  split
  · exact Nat.le_refl _
  · split
    · exact Nat.le_refl _
    · exact capacity_le_growTo b _ m

theorem content_append (inside : b.len ≤ b.capacity) (bytes : List UInt8) (m : Machine) :
    (b.append bytes m).target.content =
      match (b.append bytes m).result with
      | .ok _ => b.content ++ bytes
      | .error _ => b.content := by
  have kept := content_reserve inside bytes.length m
  unfold append Outcome.andThen
  cases reserved : (b.reserve bytes.length m).result with
  | ok _ =>
    have room := reserve_room reserved
    rw [← reserve_len b bytes.length m] at room
    dsimp only
    rw [content_write _ _ room, kept]
  | error _ => exact kept

theorem capacity_le_append (b : TextBuffer) (bytes : List UInt8) (m : Machine) :
    b.capacity ≤ (b.append bytes m).target.capacity := by
  have reserved := capacity_le_reserve b bytes.length m
  unfold append Outcome.andThen
  split
  · rw [capacity_write]
    exact reserved
  · exact reserved

theorem capacity_truncate (b : TextBuffer) (len : Nat) :
    (b.truncate len).capacity = b.capacity := by
  unfold truncate
  split <;> rfl

theorem content_empty (a : Allocator) : (empty a).content = [] := rfl

theorem built_ok {o : Outcome AllocationError TextBuffer Unit} (built : (built o).1 = .ok b) :
    o.result = .ok () ∧ o.target = b := by
  unfold TextBuffer.built at built
  cases result : o.result with
  | ok _ =>
    rw [result] at built
    exact ⟨rfl, Except.ok.inj built⟩
  | error _ =>
    rw [result] at built
    cases built

theorem content_withCapacity {a : Allocator} {capacity : Nat} {m : Machine}
    (made : (withCapacity a capacity m).1 = .ok b) : b.content = [] := by
  rw [← (built_ok made).2, content_growTo (Nat.le_refl _) capacity m, content_empty]

theorem content_ofBytes {a : Allocator} {bytes : List UInt8} {m : Machine}
    (made : (ofBytes a bytes m).1 = .ok b) : b.content = bytes := by
  obtain ⟨succeeded, target⟩ := built_ok made
  have vacant := content_growTo (b := empty a) (Nat.le_refl _) bytes.length m
  have grown := (keeps_growTo (empty a) bytes.length m).sound (sound_empty a)
  have appended := content_append grown.inside bytes
    ((empty a).growTo bytes.length m).machine
  unfold Outcome.andThen at succeeded target
  cases first : ((empty a).growTo bytes.length m).result with
  | ok _ =>
    rw [first] at succeeded target
    dsimp only at succeeded target
    rw [succeeded, target, vacant] at appended
    exact appended
  | error _ =>
    rw [first] at succeeded
    cases succeeded

inductive Work
  | append (bytes : List UInt8)
  | appendText (text : List Char)
  | push (byte : UInt8)
  | writeText (text : List Char)
  | reserve (additional : Nat)
  | truncate (len : Nat)
  | clear
  | withPolicy (policy : GrowthPolicy)

namespace Work

def perform : Work → TextBuffer → Machine → Outcome AllocationError TextBuffer Unit
  | append bytes, b, m => b.append bytes m
  | appendText text, b, m => b.append (Utf8.encode text) m
  | push byte, b, m => b.push byte m
  | writeText text, b, m => b.append (Utf8.encode text) m
  | reserve additional, b, m => b.reserve additional m
  | truncate len, b, m => ⟨.ok (), b.truncate len, m⟩
  | clear, b, m => ⟨.ok (), b.clear, m⟩
  | withPolicy policy, b, m => ⟨.ok (), b.withPolicy policy, m⟩

/-- What work that succeeds makes of the byte string that a buffer stands for. -/
def effect : Work → List UInt8 → List UInt8
  | append bytes, content => content ++ bytes
  | appendText text, content => content ++ Utf8.encode text
  | push byte, content => content ++ [byte]
  | writeText text, content => content ++ Utf8.encode text
  | reserve _, content => content
  | truncate len, content => content.take len
  | clear, _ => []
  | withPolicy _, content => content

theorem keeps_perform (w : Work) (b : TextBuffer) (m : Machine) : b.Keeps m (w.perform b m) := by
  cases w with
  | append bytes => exact keeps_append b bytes m
  | appendText text => exact keeps_append b (Utf8.encode text) m
  | push byte => exact keeps_append b [byte] m
  | writeText text => exact keeps_append b (Utf8.encode text) m
  | reserve additional => exact keeps_reserve b additional m
  | truncate len => exact keeps_truncate b len m _
  | clear => exact keeps_change b b.clear rfl rfl (Nat.zero_le _) m _
  | withPolicy policy => exact keeps_change b (b.withPolicy policy) rfl rfl (Nat.le_refl _) m _

theorem content_perform (w : Work) (inside : b.len ≤ b.capacity) (m : Machine) :
    (w.perform b m).target.content =
      match (w.perform b m).result with
      | .ok _ => w.effect b.content
      | .error _ => b.content := by
  cases w with
  | append bytes => exact content_append inside bytes m
  | appendText text => exact content_append inside (Utf8.encode text) m
  | push byte => exact content_append inside [byte] m
  | writeText text => exact content_append inside (Utf8.encode text) m
  | reserve additional =>
    have kept := content_reserve inside additional m
    dsimp only [perform, effect]
    split <;> exact kept
  | truncate len => exact content_truncate b len
  | clear => exact content_eq_take b.clear
  | withPolicy policy => rfl

theorem capacity_le_perform (w : Work) (b : TextBuffer) (m : Machine) :
    b.capacity ≤ (w.perform b m).target.capacity := by
  cases w with
  | append bytes => exact capacity_le_append b bytes m
  | appendText text => exact capacity_le_append b (Utf8.encode text) m
  | push byte => exact capacity_le_append b [byte] m
  | writeText text => exact capacity_le_append b (Utf8.encode text) m
  | reserve additional => exact capacity_le_reserve b additional m
  | truncate len => exact Nat.le_of_eq (capacity_truncate b len).symm
  | clear => exact Nat.le_refl _
  | withPolicy policy => exact Nat.le_refl _

end Work
end TrackedValues.TextBuffer
