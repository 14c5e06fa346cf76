/-!
Sizes as the machine counts them, and layouts of raw blocks. A size is a natural number; a word
ends at `wordMax`, one block of bytes at `blockMax` and one table of slots at `tableMax`. Arithmetic
is exact everywhere except where `saturatingMul` says otherwise. A layout is valid when its alignment
is a power of two and its size, rounded up to it, stays below half of the address space.
-/
namespace TrackedValues

def wordMax : Nat := 0xFFFFFFFFFFFFFFFF

/-- The largest block of bytes that can be described to an allocator. -/
def blockMax : Nat := 0x7FFFFFFFFFFFFFFF

/-- The largest table of eight-byte aligned slots that can be described to an allocator. -/
def tableMax : Nat := 0x7FFFFFFFFFFFFFF8

/-- Sizes from here on are more than any machine can address. -/
def addressLimit : Nat := 0x800000000000

def saturatingMul (a b : Nat) : Nat := min (a * b) wordMax

def wordBytes (n : Nat) : List UInt8 :=
  (List.range 8).map fun i => UInt8.ofNat (n >>> (8 * i))

theorem saturatingMul_exact (a b : Nat) (fits : a * b ≤ wordMax) : saturatingMul a b = a * b :=
  Nat.min_eq_left fits

theorem wordBytes_length (n : Nat) : (wordBytes n).length = 8 := by simp [wordBytes]

structure Layout where
  size : Nat
  align : Nat
  deriving DecidableEq, Repr

namespace Layout

def IsPowerOfTwo (n : Nat) : Prop := 1 <<< n.log2 = n

instance (n : Nat) : Decidable (IsPowerOfTwo n) := inferInstanceAs (Decidable (_ = _))

def Valid (l : Layout) : Prop := IsPowerOfTwo l.align ∧ l.size ≤ blockMax + 1 - l.align

instance (l : Layout) : Decidable l.Valid := inferInstanceAs (Decidable (_ ∧ _))

/-- A block that is not empty needs an address that is a multiple of its alignment. -/
def Placeable (l : Layout) : Prop := l.size = 0 ∨ l.align < addressLimit

instance (l : Layout) : Decidable l.Placeable := inferInstanceAs (Decidable (_ ∨ _))

def ofBytes (size : Nat) : Layout := if size ≤ blockMax then ⟨size, 1⟩ else ⟨1, 1⟩

end Layout
end TrackedValues
