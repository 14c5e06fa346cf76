import TrackedValues.Proofs.SlotList.Packing
import TrackedValues.Proofs.Value.Copying

/-!
What a copy is and what it asks for. Copying a sound value makes one request for each container in
it that has content, a table before its elements; the copy exists when all of them are granted,
it is the canonical form of the value, and otherwise the first one that fails is the error.
-/
namespace TrackedValues

/-- What the copy of a container asks for: a table for some slots, or storage for some bytes. -/
inductive Demand
  | table (a : Allocator) (slots : Nat)
  | text (a : Allocator) (len : Nat)
  deriving DecidableEq, Repr

namespace Demand

def allocator : Demand → Allocator
  | table a _ => a
  | text a _ => a

def bytes : Demand → Nat
  | table a slots => a.slotSize * max slots 4
  | text _ len => len

def largest : Demand → Nat
  | table _ _ => tableMax
  | text _ _ => blockMax

/-- The error of a demand that fails. That of a table names the slots that are wanted only. -/
def failure : Demand → AllocationError
  | table a slots => ⟨saturatingMul a.slotSize slots⟩
  | text _ len => ⟨len⟩

def reported (m : Machine) : Demand → Machine
  | table _ _ => m
  | text _ len => m.emit (.bufferGrown 0 len 0)

def serve (d : Demand) (m : Machine) : Option Machine :=
  if d.bytes ≤ d.largest then
    match m.request d.allocator (.fresh d.bytes) with
    | (some _, m') => some (d.reported m')
    | (none, _) => none
  else none

def serveAll : List Demand → Machine → Except Demand Machine
  | [], m => .ok m
  | d :: more, m =>
    match d.serve m with
    | some m' => serveAll more m'
    | none => .error d

theorem serveAll_append (first second : List Demand) (m : Machine) :
    serveAll (first ++ second) m = (serveAll first m).bind (serveAll second) := by
  induction first generalizing m with
  | nil => rfl
  | cons d more ih =>
    rw [List.cons_append, serveAll, serveAll]
    cases d.serve m with
    | some m' => exact ih m'
    | none => rfl

theorem serveAll_granted {d : Demand} (fits : d.bytes ≤ d.largest) {m m' : Machine} {block : Nat}
    (granted : m.request d.allocator (.fresh d.bytes) = (some block, m')) :
    serveAll [d] m = .ok (d.reported m') := by
  simp [serveAll, serve, fits, granted]

theorem serveAll_refused {d : Demand} {m m' : Machine}
    (refused : d.largest < d.bytes ∨ m.request d.allocator (.fresh d.bytes) = (none, m')) :
    serveAll [d] m = .error d := by
  rcases refused with excessive | refused
  · simp [serveAll, serve, Nat.not_le.mpr excessive]
  · simp [serveAll, serve, refused]

end Demand

/-- The answer that demands lead to: what they are for, or the error of the first that fails. -/
def Settles {α : Type} (demands : List Demand) (copy : α) (m : Machine)
    (answer : Except Error α × Machine) : Prop :=
  match Demand.serveAll demands m with
  | .ok m' => answer = (.ok copy, m')
  | .error d => answer.1 = .error (.allocation d.failure)

theorem settles_then {α β : Type} {demands more : List Demand} {copy : α} {whole : β} {m : Machine}
    {first : Except Error α × Machine} {answer : Except Error β × Machine}
    (settles : Settles demands copy m first)
    (failed : ∀ e m', first = (.error e, m') → answer.1 = .error e)
    (further : ∀ m', first = (.ok copy, m') → Settles more whole m' answer) :
    Settles (demands ++ more) whole m answer := by
  unfold Settles at settles ⊢
  rw [Demand.serveAll_append]
  cases served : Demand.serveAll demands m with
  | ok m' =>
    rw [served] at settles
    exact further m' settles
  | error d =>
    rw [served] at settles
    exact failed _ first.2 (Prod.ext settles rfl)

namespace TextBuffer

def trimmed (b : TextBuffer) : TextBuffer := ⟨b.allocator, b.policy, b.content.toArray, b.len⟩

theorem capacity_trimmed {b : TextBuffer} (sound : b.Sound) : b.trimmed.capacity = b.len := by
  simp [capacity, trimmed, b.content_length sound.inside]

theorem content_trimmed {b : TextBuffer} (sound : b.Sound) : b.trimmed.content = b.content := by
  have len := b.content_length sound.inside
  rw [content_eq_take b.trimmed]
  simp [trimmed, ← len]

theorem sound_trimmed {b : TextBuffer} (sound : b.Sound) : b.trimmed.Sound := by
  have capacity := capacity_trimmed sound
  constructor
  · exact Nat.le_of_eq capacity.symm
  · rw [capacity]
    exact Nat.le_trans sound.inside sound.addressable

def demands (b : TextBuffer) : List Demand := if b.len = 0 then [] else [.text b.allocator b.len]

theorem append_exact {b : TextBuffer} {bytes : List UInt8} (vacant : b.len = 0)
    (exactly : b.capacity = bytes.length) (addressable : bytes.length ≤ blockMax) (m : Machine) :
    b.append bytes m = ⟨.ok (), ⟨b.allocator, b.policy, bytes.toArray, bytes.length⟩, m⟩ := by
  have small : ¬wordMax < bytes.length := by
    have : blockMax ≤ wordMax := by decide
    omega
  have reserved : b.reserve bytes.length m = ⟨.ok (), b, m⟩ := by
    simp [reserve, vacant, exactly, small]
  have room : 0 + bytes.length ≤ b.storage.size := by
    rw [Nat.zero_add]
    exact Nat.le_of_eq exactly.symm
  have behind : b.storage.toList.length ≤ 0 + bytes.length := by
    rw [Nat.zero_add]
    exact Nat.le_of_eq exactly
  have written : Storage.overwrite bytes 0 b.storage = bytes.toArray := by
    apply Array.toList_inj.mp
    rw [Storage.toList_overwrite bytes 0 b.storage room, List.drop_of_length_le behind]
    simp
  simp [append, reserved, Outcome.andThen, write, vacant, written]

theorem duplicate_cases {b : TextBuffer} (sound : b.Sound) (m : Machine) :
    (b.len = 0 ∧ b.duplicate m = (.ok b.trimmed, m)) ∨
    (b.len ≠ 0 ∧ b.len ≤ blockMax ∧ ∃ block m',
      m.request b.allocator (.fresh b.len) = (some block, m') ∧
      b.duplicate m = (.ok b.trimmed, m'.emit (.bufferGrown 0 b.len 0))) ∨
    (b.len ≠ 0 ∧ ∃ m', m.request b.allocator (.fresh b.len) = (none, m') ∧
      b.duplicate m = (.error ⟨b.len⟩, m'.emit (.bufferRefused b.len))) := by
  have len := content_length b sound.inside
  have small : b.content.length ≤ blockMax := by
    rw [len]
    exact Nat.le_trans sound.inside sound.addressable
  have filled : ∀ (copy : TextBuffer) m', copy.allocator = b.allocator → copy.len = 0 →
      copy.capacity = b.len → (copy.withPolicy b.policy).append b.content m' =
        ⟨.ok (), b.trimmed, m'⟩ := by
    intro copy m' allocator vacant capacity
    rw [append_exact (b := copy.withPolicy b.policy) vacant (capacity.trans len.symm) small]
    simp [trimmed, withPolicy, allocator, len]
  unfold duplicate
  rcases growTo_cases (empty b.allocator) b.len m with ⟨none_wanted, same⟩ |
    ⟨_, excessive, _⟩ | ⟨short, addressable, block, m', granted, grown⟩ |
    ⟨short, addressable, m', refused, same⟩
  · have none_wanted : b.len = 0 := Nat.le_zero.mp none_wanted
    rw [same]
    simp only [Outcome.andThen]
    rw [filled (empty b.allocator) m rfl rfl none_wanted.symm]
    exact Or.inl ⟨none_wanted, rfl⟩
  · rw [len] at small
    omega
  · have capacity := capacity_extend (empty b.allocator) m.heap.base block b.len (Nat.zero_le _)
    rw [grown]
    simp only [Outcome.andThen]
    rw [filled ((empty b.allocator).extend m.heap.base block b.len) _ rfl rfl capacity]
    exact Or.inr (Or.inl ⟨Nat.ne_of_gt short, addressable, block, m', granted, rfl⟩)
  · rw [same]
    exact Or.inr (Or.inr ⟨Nat.ne_of_gt short, m', refused, rfl⟩)

theorem settles_duplicate {b : TextBuffer} (sound : b.Sound) (m : Machine) :
    Settles b.demands (.text b.trimmed) m (Value.ofText (b.duplicate m)) := by
  unfold Settles demands
  rcases duplicate_cases sound m with ⟨vacant, copied⟩ |
    ⟨wanted, addressable, block, m', granted, copied⟩ | ⟨wanted, m', refused, failed⟩
  · rw [if_pos vacant, copied]
    rfl
  · rw [if_neg wanted, copied,
      Demand.serveAll_granted (d := .text b.allocator b.len) addressable granted]
    rfl
  · rw [if_neg wanted, failed,
      Demand.serveAll_refused (d := .text b.allocator b.len) (Or.inr refused)]
    rfl

end TextBuffer

namespace ValueList
open SlotList (filled slotsFor)

def ownDemands {α : Type} (l : SlotList α) : List Demand :=
  if l.len = 0 then [] else [.table l.allocator l.len]

theorem settles_withCapacity (a : Allocator) (n : Nat) (m : Machine) :
    Settles (if n = 0 then [] else [.table a n]) (filled a (slotsFor n) [] : ValueList) m
      (SlotList.withCapacity a n m) := by
  have slots : n ≠ 0 → slotsFor n = max n 4 := fun wanted => if_neg wanted
  unfold Settles
  rcases SlotList.withCapacity_answers (α := Value) a n m with ⟨none_wanted, built⟩ |
    ⟨wanted, addressable, block, m', granted, built⟩ | ⟨wanted, m', found, failed⟩
  · rw [if_pos none_wanted, built]
    rfl
  · rw [slots wanted] at addressable granted
    rw [if_neg wanted, built, Demand.serveAll_granted (d := .table a n) addressable granted]
    rfl
  · rw [slots wanted] at found
    have refused : Demand.serveAll [.table a n] m = .error (.table a n) :=
      Demand.serveAll_refused (found.imp And.left id)
    rw [if_neg wanted, failed, refused]
    rfl

theorem pushBack_filled (a : Allocator) {capacity : Nat} {xs : List Value} (x : Value)
    (room : xs.length < capacity) (m : Machine) :
    pushBack (filled a capacity xs) x m = ⟨.ok (), filled a capacity (xs ++ [x]), m⟩ := by
  rw [pushBack, SlotList.pushBack_filled a x room m]
  rfl

end ValueList

namespace Value
open SlotList (filled packed slotsFor)

def canonizing : Cases Value where
  integer := .integer
  real := .real
  text b := .text b.trimmed
  boolean := .boolean
  list l := .list (packed l.allocator l.elements)

/-- The value in storage that its content just fits: trimmed texts and packed lists. -/
def canonical (v : Value) : Value := v.fold canonizing

def demanding : Cases (List Demand) where
  integer _ := []
  real _ := []
  text b := b.demands
  boolean _ := []
  list l := ValueList.ownDemands l ++ l.elements.flatten

/-- What a copy of the value asks for, in this order: a list before its elements. -/
def demands (v : Value) : List Demand := v.fold demanding

theorem canonical_list (l : ValueList) :
    (list l).canonical = .list (packed l.allocator (l.elements.map canonical)) := by
  rw [← SlotList.elements_map]
  exact fold_list canonizing l

theorem demands_list (l : ValueList) :
    (list l).demands = ValueList.ownDemands l ++ l.elements.flatMap demands := by
  rw [List.flatMap_def, ← SlotList.elements_map]
  exact fold_list demanding l

theorem duplicate_list (l : ValueList) (m : Machine) :
    (list l).duplicate m = ofList ((l.map duplicate).copyWith m) :=
  congrFun (fold_list copying l) m

theorem settles_pushCopies {a : Allocator} {capacity : Nat} {vs done : List Value}
    (each : ∀ v ∈ vs, ∀ m, Settles v.demands v.canonical m (v.duplicate m))
    (room : done.length + vs.length ≤ capacity) (m : Machine) :
    Settles (vs.flatMap demands) (filled a capacity (done ++ vs.map canonical)) m
      (ValueList.pushCopies (filled a capacity done) (vs.map duplicate) m) := by
  -- There is a slot for every copy still to come, so no push on the way asks for storage.
  induction vs generalizing done m with
  | nil =>
    rw [List.map_nil, List.append_nil]
    rfl
  | cons v vs ih =>
    simp only [List.mem_cons, forall_eq_or_imp] at each
    rw [List.length_cons] at room
    rw [List.flatMap_cons, List.map_cons, List.map_cons]
    apply settles_then (each.1 m)
    · intro e m' failed
      simp only [ValueList.pushCopies, failed]
    · intro m' copied
      have pushed := ValueList.pushBack_filled a v.canonical
        (show done.length < capacity by omega) m'
      have further : (done ++ [v.canonical]).length + vs.length ≤ capacity := by
        rw [List.length_append, List.length_singleton]
        omega
      have rest := ih each.2 further m'
      rw [List.append_assoc, List.singleton_append] at rest
      simp only [ValueList.pushCopies, copied, pushed]
      exact rest

theorem settles_ofList {demands : List Demand} {l : ValueList} {m : Machine}
    {answer : Except Error ValueList × Machine} (settles : Settles demands l m answer) :
    Settles demands (list l) m (ofList answer) := by
  obtain ⟨result, m'⟩ := answer
  unfold Settles at settles ⊢
  split
  · rename_i served
    rw [served] at settles
    rw [settles]
    rfl
  · rename_i served
    rw [served] at settles
    have failed : result = _ := settles
    rw [failed]
    rfl

theorem settles_copyWith {l : ValueList} {xs : List Value} (holds : SlotList.Holds l xs)
    (each : ∀ v ∈ xs, ∀ m, Settles v.demands v.canonical m (v.duplicate m)) (m : Machine) :
    Settles (ValueList.ownDemands l ++ xs.flatMap demands)
      (packed l.allocator (xs.map canonical)) m ((l.map duplicate).copyWith m) := by
  have len := SlotList.len_eq_length holds
  have copyings : (l.map duplicate).elements = xs.map duplicate := by
    rw [SlotList.elements_map, SlotList.elements_eq holds]
  apply settles_then (ValueList.settles_withCapacity l.allocator l.len m)
  · intro e m' failed
    simp only [SlotList.copyWith, SlotList.map, failed]
  · intro m' built
    have room : ([] : List Value).length + xs.length ≤ slotsFor l.len := by
      rw [len, List.length_nil, Nat.zero_add]
      exact SlotList.le_slotsFor _
    have answer : (l.map duplicate).copyWith m =
        ValueList.pushCopies (filled l.allocator (slotsFor l.len) []) (xs.map duplicate) m' := by
      simp only [SlotList.copyWith, copyings]
      simp only [SlotList.map, built]
    have target : packed l.allocator (xs.map canonical) =
        filled l.allocator (slotsFor l.len) ([] ++ xs.map canonical) := by
      rw [packed, List.length_map, len, List.nil_append]
    rw [answer, target]
    exact settles_pushCopies each room m'

theorem settles_duplicate {v : Value} (sound : v.Sound) (m : Machine) :
    Settles v.demands v.canonical m (v.duplicate m) := by
  induction sound generalizing m with
  | integer n => rfl
  | real x => rfl
  | boolean b => rfl
  | text sound => exact TextBuffer.settles_duplicate sound m
  | list holds each ih =>
    rw [demands_list, canonical_list, duplicate_list, SlotList.elements_eq holds]
    exact settles_ofList (settles_copyWith holds ih m)

theorem duplicate_ok {v w : Value} (sound : v.Sound) {m m' : Machine}
    (copied : v.duplicate m = (.ok w, m')) :
    w = v.canonical ∧ Demand.serveAll v.demands m = .ok m' := by
  have settles := settles_duplicate sound m
  unfold Settles at settles
  rw [copied] at settles
  split at settles
  · rename_i served
    simp only [Prod.mk.injEq, Except.ok.injEq] at settles
    rw [settles.1, settles.2]
    exact ⟨rfl, served⟩
  · simp at settles

end Value
end TrackedValues
