import TrackedValues.Buffer.Views
import TrackedValues.Proofs.Buffer.Content
import TrackedValues.Session.Report

/-!
Scratch bytes. A machine may hand out blocks with any bytes in them, and a buffer has stale bytes
behind its content. Buffers that agree on everything but those bytes are asked and changed alike
on machines that agree on everything but those bytes, and they stay so.
-/
namespace TrackedValues

def Heap.withScratch (h : Heap) (scratch : Nat → Nat → UInt8) : Heap :=
  { h with base := { h.base with scratch := scratch } }

def Machine.withScratch (m : Machine) (scratch : Nat → Nat → UInt8) : Machine :=
  { m with heap := m.heap.withScratch scratch }

variable {scratch : Nat → Nat → UInt8}

theorem Heap.requestThrough_withScratch (h : Heap) (r : Request) (chain : List TrackerId) :
    (h.withScratch scratch).requestThrough r chain =
      ((h.requestThrough r chain).1, (h.requestThrough r chain).2.withScratch scratch) := by
  induction chain with
  | nil => rfl
  | cons t inner ih =>
    have limits : (h.withScratch scratch).tracker t = h.tracker t := rfl
    simp only [requestThrough, limits, ih]
    split
    · obtain ⟨answer, h'⟩ := h.requestThrough r inner
      cases answer <;> rfl
    · rfl

theorem Heap.releaseThrough_withScratch (h : Heap) (size : Nat) (chain : List TrackerId) :
    (h.withScratch scratch).releaseThrough size chain =
      (h.releaseThrough size chain).withScratch scratch := by
  induction chain with
  | nil => rfl
  | cons t inner ih =>
    simp only [releaseThrough, ih]
    rfl

namespace Machine

theorem request_withScratch (m : Machine) (a : Allocator) (r : Request) :
    (m.withScratch scratch).request a r =
      ((m.request a r).1, (m.request a r).2.withScratch scratch) := by
  simp only [request, Heap.request, withScratch, Heap.requestThrough_withScratch]

theorem release_withScratch (m : Machine) (a : Allocator) (size : Nat) :
    (m.withScratch scratch).release a size = (m.release a size).withScratch scratch := by
  simp only [release, Heap.release, withScratch, Heap.releaseThrough_withScratch]

end Machine

namespace TextBuffer
variable {α β ε : Type} {b c : TextBuffer} {m : Machine}

/-- All that is known of a buffer but its scratch bytes. -/
structure Face where
  allocator : Allocator
  policy : GrowthPolicy
  content : List UInt8
  len : Nat
  capacity : Nat

def face (b : TextBuffer) : Face := ⟨b.allocator, b.policy, b.content, b.len, b.capacity⟩

theorem face_eq_iff : c.face = b.face ↔ c.allocator = b.allocator ∧ c.policy = b.policy ∧
    c.content = b.content ∧ c.len = b.len ∧ c.capacity = b.capacity := by
  simp [face]

theorem face_extend (same : c.face = b.face) (inside : b.len ≤ b.capacity) (base base' : Base)
    (block : Nat) {target : Nat} (longer : b.capacity ≤ target) :
    (c.extend base' block target).face = (b.extend base block target).face := by
  obtain ⟨allocator, policy, content, len, capacity⟩ := face_eq_iff.mp same
  have inside' : c.len ≤ c.capacity := by rw [len, capacity]; exact inside
  rw [face_eq_iff, content_extend c _ _ _ inside', content_extend b _ _ _ inside,
    capacity_extend c _ _ _ (capacity ▸ longer), capacity_extend b _ _ _ longer]
  exact ⟨allocator, policy, content, len, rfl⟩

theorem face_write (same : c.face = b.face) {bytes : List UInt8}
    (room : b.len + bytes.length ≤ b.capacity) : (c.write bytes).face = (b.write bytes).face := by
  obtain ⟨allocator, policy, content, len, capacity⟩ := face_eq_iff.mp same
  have room' : c.len + bytes.length ≤ c.capacity := by rw [len, capacity]; exact room
  rw [face_eq_iff, content_write c bytes room', content_write b bytes room, capacity_write,
    capacity_write, content]
  exact ⟨allocator, policy, rfl, congrArg (· + bytes.length) len, capacity⟩

theorem face_truncate (same : c.face = b.face) (len : Nat) :
    (c.truncate len).face = (b.truncate len).face := by
  obtain ⟨allocator, policy, content, lens, capacity⟩ := face_eq_iff.mp same
  rw [face_eq_iff, content_truncate, content_truncate, capacity_truncate, capacity_truncate,
    content]
  unfold truncate
  rw [lens]
  split
  · exact ⟨allocator, policy, rfl, rfl, capacity⟩
  · exact ⟨allocator, policy, rfl, lens, capacity⟩

theorem face_clear (same : c.face = b.face) : c.clear.face = b.clear.face := by
  obtain ⟨allocator, policy, _, _, capacity⟩ := face_eq_iff.mp same
  have nothing : ∀ d : TextBuffer, d.clear.content = [] := fun d => content_eq_take d.clear
  rw [face_eq_iff, nothing, nothing]
  exact ⟨allocator, policy, rfl, rfl, capacity⟩

theorem face_withPolicy (same : c.face = b.face) (policy : GrowthPolicy) :
    (c.withPolicy policy).face = (b.withPolicy policy).face := by
  obtain ⟨allocator, _, content, len, capacity⟩ := face_eq_iff.mp same
  exact face_eq_iff.mpr ⟨allocator, rfl, content, len, capacity⟩

/-- Two outcomes of one work that differ in scratch bytes only. -/
structure Agree (scratch : Nat → Nat → UInt8) (o o' : Outcome ε TextBuffer α) : Prop where
  result : o'.result = o.result
  face : o'.target.face = o.target.face
  machine : o'.machine = o.machine.withScratch scratch

theorem agree_growTo (same : c.face = b.face) (inside : b.len ≤ b.capacity) (target : Nat)
    (m : Machine) :
    Agree scratch (b.growTo target m) (c.growTo target (m.withScratch scratch)) := by
  obtain ⟨allocator, _, _, len, capacity⟩ := face_eq_iff.mp same
  have growth : c.growth target = b.growth target := by rw [TextBuffer.growth, capacity]; rfl
  unfold growTo
  rw [capacity, allocator, growth, Machine.request_withScratch, len]
  split
  · exact ⟨rfl, same, rfl⟩
  · rename_i short
    have longer := Nat.le_of_lt (Nat.not_le.mp short)
    split
    · exact ⟨rfl, same, rfl⟩
    · obtain ⟨answer, m'⟩ := m.request b.allocator (b.growth target)
      cases answer with
      | some block => exact ⟨rfl, face_extend same inside _ _ block longer, rfl⟩
      | none => exact ⟨rfl, same, rfl⟩

theorem agree_reserve (same : c.face = b.face) (inside : b.len ≤ b.capacity) (additional : Nat)
    (m : Machine) :
    Agree scratch (b.reserve additional m) (c.reserve additional (m.withScratch scratch)) := by
  obtain ⟨_, policy, _, len, capacity⟩ := face_eq_iff.mp same
  simp only [reserve]
  rw [len, capacity, policy]
  split
  · exact ⟨rfl, same, rfl⟩
  · split
    · exact ⟨rfl, same, rfl⟩
    · exact agree_growTo same inside _ m

theorem agree_andThen {o o' : Outcome ε TextBuffer α} (agree : Agree scratch o o')
    {next : α → TextBuffer → Machine → Outcome ε TextBuffer β}
    (further : ∀ a, o.result = .ok a → Agree scratch (next a o.target o.machine)
      (next a o'.target (o.machine.withScratch scratch))) :
    Agree scratch (o.andThen next) (o'.andThen next) := by
  unfold Outcome.andThen
  rw [agree.result, agree.machine]
  cases succeeded : o.result with
  | ok a => exact further a succeeded
  | error e => exact ⟨rfl, agree.face, rfl⟩

theorem agree_append (same : c.face = b.face) (inside : b.len ≤ b.capacity) (bytes : List UInt8)
    (m : Machine) :
    Agree scratch (b.append bytes m) (c.append bytes (m.withScratch scratch)) := by
  have reserved : Agree scratch (b.reserve bytes.length m) _ :=
    agree_reserve same inside bytes.length m
  refine agree_andThen reserved fun _ succeeded => ⟨rfl, ?_, rfl⟩
  apply face_write reserved.face
  rw [reserve_len]
  exact reserve_room succeeded

theorem Work.agree_perform (w : Work) (same : c.face = b.face) (inside : b.len ≤ b.capacity)
    (m : Machine) :
    Agree scratch (w.perform b m) (w.perform c (m.withScratch scratch)) := by
  cases w with
  | append bytes => exact agree_append same inside bytes m
  | appendText text => exact agree_append same inside (Utf8.encode text) m
  | push byte => exact agree_append same inside [byte] m
  | writeText text => exact agree_append same inside (Utf8.encode text) m
  | reserve additional => exact agree_reserve same inside additional m
  | truncate len => exact ⟨rfl, face_truncate same len, rfl⟩
  | clear => exact ⟨rfl, face_clear same, rfl⟩
  | withPolicy policy => exact ⟨rfl, face_withPolicy same policy, rfl⟩

def AgreeMade (scratch : Nat → Nat → UInt8)
    (answer answer' : Except AllocationError TextBuffer × Machine) : Prop :=
  answer'.1.map face = answer.1.map face ∧ answer'.2 = answer.2.withScratch scratch

theorem release_withScratch (same : c.face = b.face) (m : Machine) :
    c.release (m.withScratch scratch) = (b.release m).withScratch scratch := by
  obtain ⟨allocator, _, _, _, capacity⟩ := face_eq_iff.mp same
  unfold release
  rw [allocator, capacity]
  split
  · rfl
  · exact m.release_withScratch _ _

theorem agree_built {o o' : Outcome AllocationError TextBuffer Unit} (agree : Agree scratch o o') :
    AgreeMade scratch (built o) (built o') := by
  unfold built AgreeMade
  rw [agree.result, agree.machine, release_withScratch agree.face]
  cases o.result with
  | ok _ => exact ⟨congrArg Except.ok agree.face, rfl⟩
  | error e => exact ⟨rfl, rfl⟩

theorem agree_withCapacity (a : Allocator) (capacity : Nat) (m : Machine) :
    AgreeMade scratch (withCapacity a capacity m)
      (withCapacity a capacity (m.withScratch scratch)) :=
  agree_built (agree_growTo rfl (Nat.le_refl _) capacity m)

theorem agree_ofBytes (a : Allocator) (bytes : List UInt8) (m : Machine) :
    AgreeMade scratch (ofBytes a bytes m) (ofBytes a bytes (m.withScratch scratch)) := by
  have grown : Agree scratch ((empty a).growTo bytes.length m) _ :=
    agree_growTo rfl (Nat.le_refl _) bytes.length m
  have sound := (keeps_growTo (empty a) bytes.length m).sound (sound_empty a)
  exact agree_built (agree_andThen grown fun _ _ => agree_append grown.face sound.inside bytes _)

theorem agree_duplicate (same : c.face = b.face) (m : Machine) :
    AgreeMade scratch (b.duplicate m) (c.duplicate (m.withScratch scratch)) := by
  obtain ⟨allocator, policy, content, len, _⟩ := face_eq_iff.mp same
  have grown : Agree scratch ((empty b.allocator).growTo b.len m) _ :=
    agree_growTo rfl (Nat.le_refl _) b.len m
  have sound := (keeps_growTo (empty b.allocator) b.len m).sound (sound_empty _)
  unfold duplicate
  rw [allocator, policy, content, len]
  refine agree_built (agree_andThen grown fun _ _ => ?_)
  exact agree_append (face_withPolicy grown.face b.policy) sound.inside b.content _

structure View where
  bytes : List UInt8
  text : Except Utf8.Fault (List Char)
  display : List Char
  debug : List Char
  hashInput : List UInt8
  len : Nat
  capacity : Nat

def view (b : TextBuffer) : View :=
  ⟨b.content, b.text, b.display, b.debug, b.hashInput, b.len, b.capacity⟩

theorem view_congr (content : c.content = b.content) (len : c.len = b.len)
    (capacity : c.capacity = b.capacity) : c.view = b.view := by
  have text : c.text = b.text := congrArg Utf8.decode content
  have display : c.display = b.display := congrArg Utf8.lossy content
  have debug : c.debug = b.debug := by
    unfold TextBuffer.debug
    rw [content, len, capacity]
  have hashed : c.hashInput = b.hashInput := by
    unfold hashInput
    rw [content]
  rw [view, content, text, display, debug, hashed, len, capacity, view]

theorem compareWith_congr {d e : TextBuffer} (first : c.content = b.content)
    (second : e.content = d.content) : c.compareWith e = b.compareWith d := by
  unfold compareWith order? order equals equalsBytes equalsText text hashInput
  rw [first, second]

end TextBuffer
end TrackedValues
