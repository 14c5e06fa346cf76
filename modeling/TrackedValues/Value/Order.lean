import TrackedValues.Buffer.Views
import TrackedValues.Value.Basic

/-!
Equality and order of values. Only values of one shape are ever equal or ordered. Lists are equal
when they have one length and equal elements, and are ordered by the first pair that is not equal.
-/
namespace TrackedValues

def orderBooleans : Bool → Bool → Ordering
  | false, true => .lt
  | true, false => .gt
  | _, _ => .eq

namespace Content

mutual

def equals : Content → Content → Bool
  | integer a, integer b => decide (a = b)
  | real a, real b => a.equals b
  | text a, text b => decide (a = b)
  | boolean a, boolean b => a == b
  | list a, list b => a.length == b.length && equalsAll a b
  | _, _ => false

def equalsAll : List Content → List Content → Bool
  | [], [] => true
  | a :: as, b :: bs => equals a b && equalsAll as bs
  | _, _ => false

end

mutual

def order? : Content → Content → Option Ordering
  | integer a, integer b => some (compare a.toInt b.toInt)
  | real a, real b => a.order? b
  | text a, text b => some (orderBytes a b)
  | boolean a, boolean b => some (orderBooleans a b)
  | list a, list b => orderAll? a b
  | _, _ => none

def orderAll? : List Content → List Content → Option Ordering
  | [], [] => some .eq
  | [], _ :: _ => some .lt
  | _ :: _, [] => some .gt
  | a :: as, b :: bs =>
    match order? a b with
    | some .eq => orderAll? as bs
    | other => other

end

end Content

namespace Value

@[inline] def equals (v w : Value) : Bool := v.content.equals w.content

@[inline] def order? (v w : Value) : Option Ordering := v.content.order? w.content

@[inline] def isLess (v w : Value) : Bool := v.order? w == some .lt

@[inline] def isGreater (v w : Value) : Bool := v.order? w == some .gt

@[inline] def isAtMost (v w : Value) : Bool := v.isLess w || v.order? w == some .eq

@[inline] def isAtLeast (v w : Value) : Bool := v.isGreater w || v.order? w == some .eq

end Value

def ValueList.equals (l k : ValueList) : Bool :=
  l.len == k.len && Content.equalsAll (contents l) (contents k)

end TrackedValues
