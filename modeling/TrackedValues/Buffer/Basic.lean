import TrackedValues.Machine

/-!
Text buffers: bytes of storage of which the first `len` are the content. The rest is scratch: it
holds whatever the allocator or an earlier content left there, and nothing reads it. Storage is
changed in place, and grows as a policy says: to the largest of the current capacity times a factor
of at least two, the bytes required, and a least capacity. Every operation that may ask for storage
can fail, and then leaves the buffer as it was.
-/
namespace TrackedValues

structure GrowthPolicy where
  factor : Nat
  leastCapacity : Nat
  two_le_factor : 2 ≤ factor
  deriving DecidableEq, Repr

namespace GrowthPolicy

/-- A factor below two is raised to two. -/
def make (factor leastCapacity : Nat) : GrowthPolicy :=
  ⟨max factor 2, leastCapacity, Nat.le_max_right factor 2⟩

def doubling : GrowthPolicy := ⟨2, 0, Nat.le_refl 2⟩

instance : Inhabited GrowthPolicy := ⟨doubling⟩

def nextCapacity (p : GrowthPolicy) (current required : Nat) : Nat :=
  max (max (saturatingMul current p.factor) required) p.leastCapacity

def debug (p : GrowthPolicy) : String :=
  "GrowthPolicy \x7b factor: " ++ toString p.factor ++ ", min_capacity: " ++
    toString p.leastCapacity ++ " \x7d"

def hashInput (p : GrowthPolicy) : List UInt8 := wordBytes p.factor ++ wordBytes p.leastCapacity

theorem required_le_nextCapacity (p : GrowthPolicy) (current required : Nat) :
    required ≤ p.nextCapacity current required := by
  unfold nextCapacity
  omega

end GrowthPolicy

namespace Storage

def appendFresh (fresh : Nat → UInt8) : Nat → Array UInt8 → Array UInt8
  | 0, storage => storage
  | n + 1, storage => appendFresh fresh n (storage.push (fresh storage.size))

theorem toList_appendFresh (fresh : Nat → UInt8) (n : Nat) (storage : Array UInt8) :
    (appendFresh fresh n storage).toList =
      storage.toList ++ (List.range' storage.size n).map fresh := by
  induction n generalizing storage with
  | zero => simp [appendFresh]
  | succ n ih => simp [appendFresh, ih, List.range'_succ]

theorem size_appendFresh (fresh : Nat → UInt8) (n : Nat) (storage : Array UInt8) :
    (appendFresh fresh n storage).size = storage.size + n := by
  rw [← Array.length_toList, toList_appendFresh]
  simp

def overwrite : List UInt8 → Nat → Array UInt8 → Array UInt8
  | [], _, storage => storage
  | byte :: more, i, storage => overwrite more (i + 1) (storage.setIfInBounds i byte)

theorem size_overwrite (bytes : List UInt8) (i : Nat) (storage : Array UInt8) :
    (overwrite bytes i storage).size = storage.size := by
  induction bytes generalizing i storage with
  | nil => rfl
  | cons byte more ih => rw [overwrite, ih, Array.size_setIfInBounds]

theorem toList_overwrite (bytes : List UInt8) (i : Nat) (storage : Array UInt8)
    (room : i + bytes.length ≤ storage.size) :
    (overwrite bytes i storage).toList =
      storage.toList.take i ++ bytes ++ storage.toList.drop (i + bytes.length) := by
  induction bytes generalizing i storage with
  | nil => simp [overwrite]
  | cons byte more ih =>
    have inside : i < storage.toList.length := by
      simp only [List.length_cons, Array.length_toList] at *
      omega
    have behind : i + (more.length + 1) = i + 1 + more.length := by omega
    have before : (storage.toList.take i).length ≤ i := List.length_take_le i _
    rw [overwrite, ih _ _ (by simp only [List.length_cons, Array.size_setIfInBounds] at *; omega)]
    simp only [Array.toList_setIfInBounds, List.length_cons, behind]
    rw [List.drop_set_of_lt (by omega), List.take_succ_eq_append_getElem (by simpa using inside)]
    simp [List.take_set, List.set_eq_of_length_le before]

end Storage

structure TextBuffer where
  allocator : Allocator
  policy : GrowthPolicy
  storage : Array UInt8
  len : Nat
  deriving DecidableEq, Repr

namespace TextBuffer

def empty (a : Allocator) : TextBuffer := ⟨a, .doubling, #[], 0⟩

def capacity (b : TextBuffer) : Nat := b.storage.size

def content (b : TextBuffer) : List UInt8 := (b.storage.extract 0 b.len).toList

def isEmpty (b : TextBuffer) : Bool := b.len == 0

theorem content_eq_take (b : TextBuffer) : b.content = b.storage.toList.take b.len := by
  simp [content]

theorem content_length (b : TextBuffer) (inside : b.len ≤ b.capacity) :
    b.content.length = b.len := by
  rw [content_eq_take, List.length_take]
  exact Nat.min_eq_left inside

def growth (b : TextBuffer) (target : Nat) : Request :=
  if b.capacity = 0 then .fresh target else .grow b.capacity target

/-- Longer storage: the old bytes are kept and the new ones are what block `block` holds. -/
def extend (b : TextBuffer) (base : Base) (block target : Nat) : TextBuffer :=
  { b with storage := Storage.appendFresh (base.scratch block) (target - b.capacity) b.storage }

theorem capacity_extend (b : TextBuffer) (base : Base) (block target : Nat)
    (longer : b.capacity ≤ target) : (b.extend base block target).capacity = target := by
  simp only [capacity, extend, Storage.size_appendFresh] at *
  omega

theorem content_extend (b : TextBuffer) (base : Base) (block target : Nat)
    (inside : b.len ≤ b.capacity) : (b.extend base block target).content = b.content := by
  rw [content_eq_take, content_eq_take, extend, Storage.toList_appendFresh]
  exact List.take_append_of_le_length inside

def growTo (b : TextBuffer) (target : Nat) (m : Machine) : Outcome AllocationError TextBuffer Unit :=
  if target ≤ b.capacity then ⟨.ok (), b, m⟩
  else if blockMax < target then ⟨.error ⟨target⟩, b, m⟩
  else
    match m.request b.allocator (b.growth target) with
    | (some block, m') =>
      ⟨.ok (), b.extend m.heap.base block target, m'.emit (.bufferGrown b.capacity target b.len)⟩
    | (none, m') => ⟨.error ⟨target⟩, b, m'.emit (.bufferRefused target)⟩

def reserve (b : TextBuffer) (additional : Nat) (m : Machine) :
    Outcome AllocationError TextBuffer Unit :=
  let required := b.len + additional
  if wordMax < required then ⟨.error ⟨wordMax⟩, b, m⟩
  else if required ≤ b.capacity then ⟨.ok (), b, m⟩
  else b.growTo (b.policy.nextCapacity b.capacity required) m

def write (b : TextBuffer) (bytes : List UInt8) : TextBuffer :=
  { b with storage := Storage.overwrite bytes b.len b.storage, len := b.len + bytes.length }

theorem capacity_write (b : TextBuffer) (bytes : List UInt8) :
    (b.write bytes).capacity = b.capacity :=
  Storage.size_overwrite bytes b.len b.storage

theorem content_write (b : TextBuffer) (bytes : List UInt8)
    (room : b.len + bytes.length ≤ b.capacity) : (b.write bytes).content = b.content ++ bytes := by
  have filled := content_length b (Nat.le_of_add_right_le room)
  rw [content_eq_take] at filled
  have exactly : (b.storage.toList.take b.len ++ bytes).length = b.len + bytes.length := by
    rw [List.length_append, filled]
  rw [content_eq_take, content_eq_take, write, Storage.toList_overwrite _ _ _ room, ← exactly,
    List.take_left]

def append (b : TextBuffer) (bytes : List UInt8) (m : Machine) :
    Outcome AllocationError TextBuffer Unit :=
  (b.reserve bytes.length m).andThen fun _ b m => ⟨.ok (), b.write bytes, m⟩

def push (b : TextBuffer) (byte : UInt8) (m : Machine) : Outcome AllocationError TextBuffer Unit :=
  b.append [byte] m

def appendAll (b : TextBuffer) : List (List UInt8) → Machine → Outcome AllocationError TextBuffer Unit
  | [], m => ⟨.ok (), b, m⟩
  | piece :: more, m => (b.append piece m).andThen fun _ b m => b.appendAll more m

/-- Shortens the content; the capacity and the bytes cut off stay. -/
def truncate (b : TextBuffer) (len : Nat) : TextBuffer :=
  if len < b.len then { b with len := len } else b

theorem content_truncate (b : TextBuffer) (len : Nat) :
    (b.truncate len).content = b.content.take len := by
  unfold truncate
  split
  · rename_i shorter
    rw [content_eq_take, content_eq_take, List.take_take, Nat.min_eq_left (Nat.le_of_lt shorter)]
  · rename_i longer
    have whole : b.content.length ≤ len := by
      rw [content_eq_take, List.length_take]
      omega
    exact (List.take_of_length_le whole).symm

def clear (b : TextBuffer) : TextBuffer := { b with len := 0 }

def withPolicy (b : TextBuffer) (policy : GrowthPolicy) : TextBuffer := { b with policy := policy }

def release (b : TextBuffer) (m : Machine) : Machine :=
  if b.capacity = 0 then m else m.release b.allocator b.capacity

/-- A new buffer from the outcome of filling it; after a failure its storage is given back. -/
def built (o : Outcome AllocationError TextBuffer Unit) :
    Except AllocationError TextBuffer × Machine :=
  match o.result with
  | .ok _ => (.ok o.target, o.machine)
  | .error e => (.error e, o.target.release o.machine)

def withCapacity (a : Allocator) (capacity : Nat) (m : Machine) :
    Except AllocationError TextBuffer × Machine :=
  built ((empty a).growTo capacity m)

def ofBytes (a : Allocator) (bytes : List UInt8) (m : Machine) :
    Except AllocationError TextBuffer × Machine :=
  built (((empty a).growTo bytes.length m).andThen fun _ b m => b.append bytes m)

/-- A copy with storage of its own, exactly long enough, and the same policy and allocator. -/
def duplicate (b : TextBuffer) (m : Machine) : Except AllocationError TextBuffer × Machine :=
  built (((empty b.allocator).growTo b.len m).andThen fun _ copy m =>
    (copy.withPolicy b.policy).append b.content m)

end TextBuffer
end TrackedValues
