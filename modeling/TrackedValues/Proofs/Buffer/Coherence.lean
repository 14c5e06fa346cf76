import TrackedValues.Buffer.Views
import TrackedValues.Proofs.Buffer.Content
import TrackedValues.Proofs.Buffer.Order
import TrackedValues.Proofs.Text.Decoding
import TrackedValues.Value.Order

/-!
How buffers compare. The order is the lexicographic one on what is stored up to the length, and it
is total; every form of equality, the partial order and the bytes that a hasher receives agree with
it, and so do texts as values. Capacity, policy, allocator and scratch bytes have no part in it.
-/
namespace TrackedValues

def littleEndian : List UInt8 → Nat
  | [] => 0
  | byte :: more => byte.toNat + 256 * littleEndian more

theorem littleEndian_wordBytes {n : Nat} (word : n ≤ wordMax) : littleEndian (wordBytes n) = n := by
  unfold wordMax at word
  simp only [wordBytes, List.range, List.range.loop, List.map_cons, List.map_nil, littleEndian,
    UInt8.toNat_ofNat', Nat.shiftRight_eq_div_pow]
  omega

namespace TextBuffer
variable {a b c : TextBuffer}

/-- What any work, on any machines, makes of a buffer as it is built. -/
inductive Reachable : TextBuffer → Prop
  | empty (a : Allocator) : Reachable (.empty a)
  | withCapacity {a : Allocator} {capacity : Nat} {m m' : Machine} {b : TextBuffer}
    (built : TextBuffer.withCapacity a capacity m = (.ok b, m')) : Reachable b
  | ofBytes {a : Allocator} {bytes : List UInt8} {m m' : Machine} {b : TextBuffer}
    (built : TextBuffer.ofBytes a bytes m = (.ok b, m')) : Reachable b
  | duplicate {b c : TextBuffer} {m m' : Machine} (before : Reachable b)
    (copied : b.duplicate m = (.ok c, m')) : Reachable c
  | step {b : TextBuffer} (before : Reachable b) (m : Machine) (work : Work) :
    Reachable (work.perform b m).target

theorem sound_of_made {m m' : Machine} {answer : Except AllocationError TextBuffer × Machine}
    (made : Made m answer) (built : answer = (.ok b, m')) : b.Sound := by
  subst built
  exact made.1

theorem reachable_sound (reachable : b.Reachable) : b.Sound := by
  induction reachable with
  | empty a => exact sound_empty a
  | withCapacity built => exact sound_of_made (made_withCapacity _ _ _) built
  | ofBytes built => exact sound_of_made (made_ofBytes _ _ _) built
  | duplicate _ copied _ => exact sound_of_made (made_duplicate _ _) copied
  | step _ m work ih => exact (work.keeps_perform _ m).sound ih

/-- The ways to compare buffers describe one total order of contents. -/
structure Coherent (a b c : TextBuffer) : Prop where
  lt_iff : a.order b = .lt ↔
    List.Lex (· < ·) (a.storage.toList.take a.len) (b.storage.toList.take b.len)
  gt_iff : a.order b = .gt ↔
    List.Lex (· < ·) (b.storage.toList.take b.len) (a.storage.toList.take a.len)
  eq_iff : a.order b = .eq ↔ a.storage.toList.take a.len = b.storage.toList.take b.len
  reflexive : a.order a = .eq
  swapped : b.order a = (a.order b).swap
  antisymmetric : (a.order b).isLE → (b.order a).isLE → a.equals b = true
  transitive : (a.order b).isLE → (b.order c).isLE → (a.order c).isLE
  total : (a.order b).isLE ∨ (b.order a).isLE
  order?_eq : a.order? b = some (a.order b)
  equals_iff : a.order b = .eq ↔ a.equals b = true
  equalsBytes_iff : a.order b = .eq ↔ a.equalsBytes b.content = true
  equalsText_iff : ∀ text, b.text = .ok text → (a.order b = .eq ↔ a.equalsText text = true)
  hashInput_iff : a.order b = .eq ↔ a.hashInput = b.hashInput
  hashInput_eq : ∀ d ∈ [a, b, c], ∃ word, word.length = 8 ∧ littleEndian word = d.len ∧
    d.hashInput = word ++ d.storage.toList.take d.len
  initial : a.content <+: b.content → a.content ≠ b.content → a.order b = .lt
  values_equals : (Value.text a).equals (.text b) = a.equals b
  values_order? : (Value.text a).order? (.text b) = a.order? b
  values_isLess : (Value.text a).isLess (.text b) = (a.order b).isLT
  values_isAtMost : (Value.text a).isAtMost (.text b) = (a.order b).isLE

theorem hashInput_iff (a b : TextBuffer) : a.hashInput = b.hashInput ↔ a.content = b.content := by
  constructor
  · intro same
    have lengths := (wordBytes_length a.content.length).trans (wordBytes_length b.content.length).symm
    exact (List.append_inj same lengths).2
  · intro same
    rw [hashInput, hashInput, same]

theorem hashInput_eq (sound : a.Sound) : ∃ word, word.length = 8 ∧ littleEndian word = a.len ∧
    a.hashInput = word ++ a.storage.toList.take a.len := by
  have length := content_length a sound.inside
  have word : a.len ≤ wordMax := by
    have inside := Nat.le_trans sound.inside sound.addressable
    have small : blockMax ≤ wordMax := by decide
    omega
  refine ⟨wordBytes a.content.length, wordBytes_length _, ?_, ?_⟩
  · rw [length, littleEndian_wordBytes word]
  · rw [← content_eq_take]
    rfl

theorem coherent_of_sound (sound : ∀ d ∈ [a, b, c], d.Sound) : a.Coherent b c := by
  have equal : a.order b = .eq ↔ a.content = b.content := orderBytes_eq_iff _ _
  have swapped : b.order a = (a.order b).swap := orderBytes_swap _ _
  constructor
  · rw [← content_eq_take, ← content_eq_take]
    exact orderBytes_lt_iff _ _
  · rw [← content_eq_take, ← content_eq_take]
    exact orderBytes_gt_iff _ _
  · rw [← content_eq_take, ← content_eq_take]
    exact equal
  · exact (orderBytes_eq_iff _ _).mpr rfl
  · exact swapped
  · intro first second
    rw [swapped] at second
    have both : a.order b = .eq := by
      cases order : a.order b with
      | eq => rfl
      | lt => simp [order] at second
      | gt => simp [order] at first
    exact decide_eq_true (equal.mp both)
  · exact orderBytes_le_trans
  · rw [swapped]
    cases a.order b <;> simp
  · rfl
  · exact equal.trans decide_eq_true_iff.symm
  · exact equal.trans decide_eq_true_iff.symm
  · intro text valid
    rw [equalsText, (Utf8.decode_ok valid).1]
    exact equal.trans decide_eq_true_iff.symm
  · exact equal.trans (hashInput_iff a b).symm
  · exact fun d member => hashInput_eq (sound d member)
  · exact orderBytes_prefix
  · rfl
  · rfl
  · have lifted : (Value.text a).order? (.text b) = some (a.order b) := rfl
    rw [Value.isLess, lifted]
    cases a.order b <;> rfl
  · have lifted : (Value.text a).order? (.text b) = some (a.order b) := rfl
    rw [Value.isAtMost, Value.isLess, lifted]
    cases a.order b <;> rfl

/-- Buffers with any histories compare by the bytes that they hold, and coherently. -/
theorem reachable_coherent (first : a.Reachable) (second : b.Reachable) (third : c.Reachable) :
    a.Coherent b c := by
  apply coherent_of_sound
  simp only [List.forall_mem_cons, List.not_mem_nil, false_implies, implies_true, and_true]
  exact ⟨reachable_sound first, reachable_sound second, reachable_sound third⟩

def worked (a : Allocator) (works : List Work) : TextBuffer :=
  works.foldl (fun b work => (work.perform b (.start .system)).target) (.empty a)

theorem reachable_worked (a : Allocator) (works : List Work) : (worked a works).Reachable := by
  unfold worked
  generalize start : empty a = b
  have reachable : b.Reachable := start ▸ .empty a
  clear start
  induction works generalizing b with
  | nil => exact reachable
  | cons work more ih => exact ih _ (.step reachable _ work)

/-- The first two differ in everything but their content, of which the third has one byte more. -/
theorem reachable_coherent_worn :
    let a := worked .base [.append [97, 98, 120, 121], .truncate 2]
    let b := worked (.tracked 0) [.withPolicy (.make 3 16), .push 97, .push 98]
    let c := worked .base [.writeText ['a', 'b', 'c']]
    a.capacity = 4 ∧ b.capacity = 16 ∧ a.order b = .eq ∧ b.order c = .lt ∧ a.Coherent b c :=
  ⟨rfl, rfl, rfl, rfl, reachable_coherent (reachable_worked _ _) (reachable_worked _ _)
    (reachable_worked _ _)⟩

end TextBuffer
end TrackedValues
