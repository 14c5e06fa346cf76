/-!
UTF-8 over lists of bytes. `front` reads what stands at the head of a byte string: a code point,
a longest part that no code point begins with, or a code point cut off by the end. The strict view
`decode` stops at the first fault; the lossy view `lossy` puts one replacement character in the
place of each.
-/
namespace TrackedValues.Utf8

def replacement : Char := '\ufffd'

def announced (lead : UInt8) : Option Nat :=
  if lead < 0x80 then some 0
  else if lead < 0xC2 then none
  else if lead < 0xE0 then some 1
  else if lead < 0xF0 then some 2
  else if lead < 0xF5 then some 3
  else none

def leadBits (lead : UInt8) : Nat :=
  if lead < 0x80 then lead.toNat
  else if lead < 0xE0 then lead.toNat % 32
  else if lead < 0xF0 then lead.toNat % 16
  else lead.toNat % 8

/--
Least and greatest second byte. Four lead bytes narrow the range, which rules out overlong forms,
surrogates and code points past the last one.
-/
def secondRange (lead : UInt8) : UInt8 × UInt8 :=
  if lead = 0xE0 then (0xA0, 0xBF)
  else if lead = 0xED then (0x80, 0x9F)
  else if lead = 0xF0 then (0x90, 0xBF)
  else if lead = 0xF4 then (0x80, 0x8F)
  else (0x80, 0xBF)

inductive Front
  | scalar (c : Char) (width : Nat)
  | broken (width : Nat)
  | cut
  deriving DecidableEq, Repr

/-- Reads the remaining bytes of a code point of which `taken` bytes with value `bits` are read. -/
def continued : Nat → UInt8 × UInt8 → Nat → Nat → List UInt8 → Front
  | 0, _, taken, bits, _ => .scalar (Char.ofNat bits) taken
  | _ + 1, _, _, _, [] => .cut
  | more + 1, range, taken, bits, b :: rest =>
    if range.1 ≤ b ∧ b ≤ range.2 then
      continued more (0x80, 0xBF) (taken + 1) (bits * 64 + b.toNat % 64) rest
    else
      .broken taken

def front (lead : UInt8) (rest : List UInt8) : Front :=
  match announced lead with
  | none => .broken 1
  | some more => continued more (secondRange lead) 1 (leadBits lead) rest

/-- Where strict decoding stopped; the length is absent when the text ends inside a code point. -/
structure Fault where
  validUpTo : Nat
  length : Option Nat
  deriving DecidableEq, Repr

def Fault.message (f : Fault) : String :=
  match f.length with
  | some n => s!"invalid utf-8 sequence of {n} bytes from index {f.validUpTo}"
  | none => s!"incomplete utf-8 byte sequence from index {f.validUpTo}"

/-- Decodes from `position` on, after passing over `skip` bytes that are already read. -/
def decodeFrom (skip position : Nat) : List UInt8 → Except Fault (List Char)
  | [] => .ok []
  | lead :: rest =>
    match skip with
    | skip + 1 => decodeFrom skip (position + 1) rest
    | 0 =>
      match front lead rest with
      | .scalar c width =>
        match decodeFrom (width - 1) (position + 1) rest with
        | .ok text => .ok (c :: text)
        | .error fault => .error fault
      | .broken width => .error ⟨position, some width⟩
      | .cut => .error ⟨position, none⟩

def decode (bytes : List UInt8) : Except Fault (List Char) := decodeFrom 0 0 bytes

def lossyFrom (skip : Nat) : List UInt8 → List Char
  | [] => []
  | lead :: rest =>
    match skip with
    | skip + 1 => lossyFrom skip rest
    | 0 =>
      match front lead rest with
      | .scalar c width => c :: lossyFrom (width - 1) rest
      | .broken width => replacement :: lossyFrom (width - 1) rest
      | .cut => [replacement]

def lossy (bytes : List UInt8) : List Char := lossyFrom 0 bytes

def encodeChar (c : Char) : List UInt8 :=
  let n := c.toNat
  if n < 0x80 then [UInt8.ofNat n]
  else if n < 0x800 then [UInt8.ofNat (0xC0 + n / 64), UInt8.ofNat (0x80 + n % 64)]
  else if n < 0x10000 then
    [UInt8.ofNat (0xE0 + n / 4096), UInt8.ofNat (0x80 + n / 64 % 64), UInt8.ofNat (0x80 + n % 64)]
  else
    [UInt8.ofNat (0xF0 + n / 262144), UInt8.ofNat (0x80 + n / 4096 % 64),
      UInt8.ofNat (0x80 + n / 64 % 64), UInt8.ofNat (0x80 + n % 64)]

def encode (text : List Char) : List UInt8 := text.flatMap encodeChar

end TrackedValues.Utf8
