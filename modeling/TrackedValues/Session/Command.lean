import TrackedValues.Session.Literal
import TrackedValues.Session.Report

/-!
The commands of a session as data, its replies, and how the results of operations become replies.
-/
namespace TrackedValues

structure Target where
  register : String
  path : List Nat
  deriving DecidableEq, Repr

inductive Command
  | set (destination : String) (v : Literal)
  | emptyList (destination : String) (allocator : Nat)
  | assign (t : Target) (v : Literal)
  | destroy (register : String)
  | clone (t : Target) (destination : String)
  | inspect (t : Target)
  | forms (t : Target)
  | compare (t other : Target)
  | asInteger (t : Target)
  | asReal (t : Target)
  | asBoolean (t : Target)
  | nest (register : String) (levels allocator : Nat)
  | append (t : Target) (bytes : List UInt8)
  | write (t : Target) (pieces : List (List UInt8))
  | pushByte (t : Target) (byte : UInt8) (times : Nat)
  | reserve (t : Target) (additional : Nat)
  | truncate (t : Target) (len : Nat)
  | clearText (t : Target)
  | withPolicy (t : Target) (policy : GrowthPolicy)
  | textState (t : Target)
  | pushBack (t : Target) (v : Literal)
  | pushFront (t : Target) (v : Literal)
  | fill (t : Target) (times : Nat) (start : Int64) (atFront : Bool)
  | popFront (t : Target)
  | popBack (t : Target)
  | remove (t : Target) (position : Nat) (keep : Option String)
  | get (t : Target) (position : Nat)
  | listState (t : Target)
  | clearList (t : Target)
  | iterate (t : Target) (script : List Glance)
  | consume (register : String) (script : List Pull)
  | setLimit (tracker : TrackerName) (limit : Option Nat)
  | setRoom (tracker : TrackerName) (room : Nat)
  | describe (tracker : TrackerName)
  | allocate (block : String) (layout : Layout) (allocator : Nat)
  | resize (block : String) (size : Nat) (zeroed : Bool)
  | deallocate (block : String)

/-- The pieces of a text, a dash, a number, a dash and a truth value, in writing order. -/
def formattedPieces (text : List Char) (n : Int) : List (List UInt8) :=
  let sign := signText n
  [Utf8.encode text, Utf8.encode ['-']] ++ (if sign.isEmpty then [] else [Utf8.encode sign]) ++
    [Utf8.encode (natText n.natAbs), Utf8.encode ['-'], Utf8.encode (boolText true)]

variable {α : Type}

inductive Reply
  | done
  | absent
  | failed (f : Failure)
  | integer (n : Int64)
  | real (x : Binary64)
  | boolean (b : Bool)
  | found (v : Option Value)
  | pushed (count : Nat) (failure : Option Failure)
  | inspection (i : Inspection)
  | forms (f : Forms)
  | comparison (c : Comparison)
  | textState (b : TextBuffer) (stats : Stats)
  | listState (l : ListState)
  | sightings (s : List Sighting)
  | description (text : String)
  | block (size : Nat)

namespace Reply

def ofUnit : Except Error α → Reply
  | .ok _ => done
  | .error e => failed (.value e)

def ofAnswer (shown : α → Reply) : Except Error α → Reply
  | .ok a => shown a
  | .error e => failed (.value e)

def ofWork : Except Error (Except AllocationError Unit) → Reply
  | .error e => failed (.value e)
  | .ok (.error e) => failed (.storage e)
  | .ok (.ok _) => done

/-- Written pieces that do not fit are a failure to format, whatever the size that was missing. -/
def ofWriting : Except Error (Except AllocationError Unit) → Reply
  | .ok (.error _) => failed .formatting
  | other => ofWork other

def ofPushing : Except Error (Except AllocationError (Nat × Option AllocationError)) → Reply
  | .error e => failed (.value e)
  | .ok (.error e) => failed (.storage e)
  | .ok (.ok (count, e)) => pushed count (e.map .storage)

def ofMissing : Except Failure (Option α) → Reply
  | .ok _ => absent
  | .error f => failed f

end Reply

end TrackedValues
