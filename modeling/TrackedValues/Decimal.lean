import TrackedValues.Binary64
import TrackedValues.Text.Quoted

/-!
The shortest decimal that reads back as a given finite number. A decimal reads back when it lies
in the interval of reals that round to the number; the ends belong to the interval when the
significand is even. Decimal grids are tried from coarse to fine, and on each the two neighbours
of the number. The first grid with a hit wins, of two hits the nearer one, and a tie goes up. The
grids are nested, so the interval is measured once, on the finest of them. The digits are written
positionally near one and with an exponent far from it, and always with a point or an exponent.
-/
namespace TrackedValues

/-- The number `digits * 10 ^ exponent`. -/
structure Decimal where
  digits : Nat
  exponent : Int
  deriving DecidableEq, Repr

namespace Decimal

/-- Lower end of the rounding interval in quarters of the last place. -/
def lowEnd (x : Binary64) : Nat := 4 * x.significand - (if x.atBinadeStart then 1 else 2)

def highEnd (x : Binary64) : Nat := 4 * x.significand + 2

def quarterExponent (x : Binary64) : Int := x.exponent - 2

/-- A quarter of the last place and `10 ^ p` are in the ratio of `quarter x p` to `unit x p`. -/
def quarter (x : Binary64) (p : Int) : Nat :=
  Nat.pow 2 (quarterExponent x).toNat * Nat.pow 10 (-p).toNat

def unit (x : Binary64) (p : Int) : Nat :=
  Nat.pow 10 p.toNat * Nat.pow 2 (-quarterExponent x).toNat

theorem unit_pos (x : Binary64) (p : Int) : 0 < unit x p :=
  Nat.mul_pos (Nat.pow_pos (by decide)) (Nat.pow_pos (by decide))

def ReadsBack (x : Binary64) (d : Decimal) : Prop :=
  let point := d.digits * unit x d.exponent
  let low := lowEnd x * quarter x d.exponent
  let high := highEnd x * quarter x d.exponent
  if x.significand % 2 = 0 then low ≤ point ∧ point ≤ high else low < point ∧ point < high

/-- What lies near a number, measured in units of `10 ^ exponent`. -/
structure Window where
  exponent : Int
  first : Nat
  last : Nat
  /-- Twice the number, rounded down. -/
  twice : Nat
  deriving DecidableEq, Repr

def window (x : Binary64) (p : Int) : Window :=
  let place := quarter x p
  let whole := unit x p
  let low := lowEnd x * place
  let high := highEnd x * place
  let twice := 8 * x.significand * place / whole
  if x.significand % 2 = 0 then ⟨p, (low + whole - 1) / whole, high / whole, twice⟩
  else ⟨p, low / whole + 1, (high - 1) / whole, twice⟩

def Window.Contains (w : Window) (n : Nat) : Prop := w.first ≤ n ∧ n ≤ w.last

instance (w : Window) (n : Nat) : Decidable (w.Contains n) := inferInstanceAs (Decidable (_ ∧ _))

theorem contains_window_iff (x : Binary64) (p : Int) (n : Nat) :
    (window x p).Contains n ↔ ReadsBack x ⟨n, p⟩ := by
  have whole := unit_pos x p
  have top : 0 < highEnd x * quarter x p :=
    Nat.mul_pos (Nat.succ_pos _) (Nat.mul_pos (Nat.pow_pos (by decide)) (Nat.pow_pos (by decide)))
  unfold Window.Contains window ReadsBack
  simp only
  split
  · rw [Nat.le_div_iff_mul_le whole, Nat.div_le_iff_le_mul_add_pred whole, Nat.mul_comm (unit x p)]
    omega
  · rw [Nat.le_div_iff_mul_le whole, Nat.succ_le_iff, Nat.div_lt_iff_lt_mul whole]
    omega

/-- The neighbour on the grid of multiples of `10 ^ k` units, the nearer one if both are inside. -/
def Window.onGrid? (w : Window) (k : Nat) : Option Decimal :=
  let step := Nat.pow 10 k
  let digits := w.twice / (2 * step)
  let below := digits * step
  let above := below + step
  if w.Contains below ∧ (w.Contains above → w.twice < below + above) then
    some ⟨digits, w.exponent + k⟩
  else if w.Contains above then some ⟨digits + 1, w.exponent + k⟩
  else none

def Window.search (w : Window) : Nat → Option Decimal
  | 0 => w.onGrid? 0
  | k + 1 =>
    match w.onGrid? (k + 1) with
    | some d => some d
    | none => w.search k

/-- The exponent of a power of ten above the number; 0.30103 is just above the logarithm of two. -/
def firstGrid (x : Binary64) : Int :=
  (x.significand.log2 + 1 + x.exponent) * 30103 / 100000 + 1

def exact (x : Binary64) : Decimal :=
  if 0 ≤ x.exponent then ⟨x.significand * Nat.pow 2 x.exponent.toNat, 0⟩
  else ⟨x.significand * Nat.pow 5 (-x.exponent).toNat, x.exponent⟩

/-- Twenty grids reach seventeen digits from the first grid, and seventeen always suffice. -/
def shortest (x : Binary64) : Decimal :=
  ((window x (firstGrid x - 19)).search 19).getD (exact x)

structure Style where
  leastPoint : Int
  greatestPoint : Int
  deriving DecidableEq, Repr

def positional (digits : List Char) (point : Int) : List Char :=
  if point ≤ 0 then ['0', '.'] ++ List.replicate (-point).toNat '0' ++ digits
  else if digits.length ≤ point.toNat then
    digits ++ List.replicate (point.toNat - digits.length) '0' ++ ['.', '0']
  else digits.take point.toNat ++ ['.'] ++ digits.drop point.toNat

def scientific (digits : List Char) (point : Int) : List Char :=
  digits.take 1 ++ (if digits.length ≤ 1 then [] else '.' :: digits.drop 1) ++
    ['e'] ++ intText (point - 1)

def render (style : Style) (d : Decimal) : List Char :=
  let digits := natText d.digits
  let point := d.exponent + digits.length
  if style.leastPoint ≤ point ∧ point ≤ style.greatestPoint then positional digits point
  else scientific digits point

end Decimal

namespace Binary64

def style : Decimal.Style := ⟨-3, 16⟩

def render (x : Binary64) : List Char :=
  if x.isNaN then ['N', 'a', 'N']
  else
    (if x.isNegative then ['-'] else []) ++
      (if x.isInfinite then ['i', 'n', 'f']
        else if x.isZero then ['0', '.', '0']
        else (Decimal.shortest x).render style)

end Binary64
end TrackedValues
