import TrackedValues.Text.Invisible

/-!
Numerals and quoted texts as lists of characters. In a quoted text a quote, a backslash and four
control characters have short escapes; every other character that would not be seen, or would
attach to the one before it, is written by its number.
-/
namespace TrackedValues

def natText (n : Nat) : List Char := Nat.toDigits 10 n

def hexText (n : Nat) : List Char := Nat.toDigits 16 n

def signText (n : Int) : List Char := if n < 0 then ['-'] else []

def intText (n : Int) : List Char := signText n ++ natText n.natAbs

def boolText (b : Bool) : List Char := if b then ['t', 'r', 'u', 'e'] else ['f', 'a', 'l', 's', 'e']

def separated (separator : List Char) : List (List Char) → List Char
  | [] => []
  | [text] => text
  | text :: next :: more => text ++ separator ++ separated separator (next :: more)

theorem separated_cons (separator text : List Char) (more : List (List Char)) :
    separated separator (text :: more) = text ++ more.flatMap (separator ++ ·) := by
  induction more generalizing text with
  | nil => simp [separated]
  | cons next more ih => simp [separated, ih]

namespace Quoted

def IsVisible (c : Char) : Prop :=
  Unprintable.contains c.toNat = false ∧ Ignorable.contains c.toNat = false ∧
    Extending.attaches c.toNat = false

instance (c : Char) : Decidable (IsVisible c) := inferInstanceAs (Decidable (_ ∧ _))

def numbered (c : Char) : List Char := ['\\', 'u', '\x7b'] ++ hexText c.toNat ++ ['\x7d']

def escape (c : Char) : List Char :=
  if c = '\x00' then ['\\', '0']
  else if c = '\t' then ['\\', 't']
  else if c = '\r' then ['\\', 'r']
  else if c = '\n' then ['\\', 'n']
  else if c = '"' then ['\\', '"']
  else if c = '\\' then ['\\', '\\']
  else if IsVisible c then [c]
  else numbered c

def quote (text : List Char) : List Char := '"' :: text.flatMap escape ++ ['"']

end Quoted
end TrackedValues
