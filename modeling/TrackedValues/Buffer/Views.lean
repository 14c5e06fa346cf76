import TrackedValues.Buffer.Basic
import TrackedValues.Text.Quoted
import TrackedValues.Text.Utf8

/-!
How a buffer is seen by others: as text, strictly or lossily decoded; in the structured form for
debugging, which quotes valid text and lists the bytes of anything else; and in comparisons, which
are lexicographic on the bytes of the content alone.
-/
namespace TrackedValues

/-- Byte strings for debugging: quoted if they are UTF-8, as a list of numbers if not. -/
def bytesText (bytes : List UInt8) : List Char :=
  match Utf8.decode bytes with
  | .ok text => Quoted.quote text
  | .error _ => ['['] ++ separated [',', ' '] (bytes.map fun b => natText b.toNat) ++ [']']

def orderBytes : List UInt8 → List UInt8 → Ordering
  | [], [] => .eq
  | [], _ :: _ => .lt
  | _ :: _, [] => .gt
  | a :: as, b :: bs => if a < b then .lt else if b < a then .gt else orderBytes as bs

theorem orderBytes_eq_iff (a b : List UInt8) : orderBytes a b = .eq ↔ a = b := by
  induction a generalizing b with
  | nil => cases b <;> simp [orderBytes]
  | cons x xs ih =>
    cases b with
    | nil => simp [orderBytes]
    | cons y ys =>
      have same : ¬x < y → ¬y < x → x = y := fun h k =>
        UInt8.le_antisymm (UInt8.not_lt.mp k) (UInt8.not_lt.mp h)
      simp only [orderBytes]
      split
      · rename_i less
        simp [UInt8.ne_of_lt less]
      · split
        · rename_i more
          simp [(UInt8.ne_of_lt more).symm]
        · rename_i notLess notMore
          simp [same notLess notMore, ih]

namespace TextBuffer

def text (b : TextBuffer) : Except Utf8.Fault (List Char) := Utf8.decode b.content

def display (b : TextBuffer) : List Char := Utf8.lossy b.content

def debug (b : TextBuffer) : List Char :=
  "StrBuf(".toList ++ bytesText b.content ++ ", len=".toList ++ natText b.len ++
    ", cap=".toList ++ natText b.capacity ++ [')']

@[inline] def equals (b c : TextBuffer) : Bool := decide (b.content = c.content)

@[inline] def equalsBytes (b : TextBuffer) (bytes : List UInt8) : Bool :=
  decide (b.content = bytes)

@[inline] def equalsText (b : TextBuffer) (text : List Char) : Bool :=
  decide (b.content = Utf8.encode text)

@[inline] def order (b c : TextBuffer) : Ordering := orderBytes b.content c.content

@[inline] def order? (b c : TextBuffer) : Option Ordering := some (b.order c)

@[inline] def hashInput (b : TextBuffer) : List UInt8 := wordBytes b.content.length ++ b.content

end TextBuffer
end TrackedValues
