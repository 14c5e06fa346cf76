import Mathlib.Data.List.Forall2
import TrackedValues.Proofs.Buffer.Order
import TrackedValues.Proofs.SlotList.Ends
import TrackedValues.Proofs.SlotList.Packing
import TrackedValues.Value.Order

/-!
Equality and order of values fit together. They are two recursions over a pair of trees, and the
order is partial: a NaN and values of different shapes are not ordered. The laws are proved of
contents by induction on the first of the trees, for lists from the laws of their elements.
-/
namespace TrackedValues

namespace Binary64

theorem equals_iff (x y : Binary64) :
    x.equals y = true ↔ x.isNaN = false ∧ y.isNaN = false ∧ x.key = y.key := by
  simp [equals, and_assoc]

end Binary64

namespace Content

theorem induct {holds : Content → Prop} (integer : ∀ n, holds (.integer n))
    (real : ∀ x, holds (.real x)) (text : ∀ bytes, holds (.text bytes))
    (boolean : ∀ b, holds (.boolean b))
    (list : ∀ items : List Content, (∀ c ∈ items, holds c) → holds (.list items))
    (c : Content) : holds c := by
  induction h : sizeOf c using Nat.strongRecOn generalizing c with
  | _ size ih =>
    subst h
    cases c with
    | integer n => exact integer n
    | real x => exact real x
    | text bytes => exact text bytes
    | boolean b => exact boolean b
    | list items =>
      apply list
      intro c member
      have smaller := List.sizeOf_lt_of_mem member
      exact ih (sizeOf c) (by simp only [Content.list.sizeOf_spec]; omega) c rfl

end Content

namespace Value

/-- What equality and order owe each other on three values. -/
structure Coherent (a b c : Value) : Prop where
  equal_iff : a.order? b = some .eq ↔ a.equals b = true
  reversed : b.order? a = (a.order? b).map Ordering.swap
  symmetric : a.equals b = b.equals a
  transitive : a.equals b = true → b.equals c = true → a.equals c = true
  ascending : a.isLess b = true → b.isLess c = true → a.isLess c = true
  alike : a.equals b = true →
    a.order? c = b.order? c ∧ c.order? a = c.order? b ∧
      a.equals c = b.equals c ∧ c.equals a = c.equals b

end Value

namespace ValueList
open SlotList (Holds)

end ValueList
end TrackedValues
