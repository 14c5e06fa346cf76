import TrackedValues.Proofs.Buffer.Growth
import TrackedValues.Proofs.Memory.Veil
import TrackedValues.Session.Literal
import TrackedValues.Value.Editing

/-!
Text buffers behind a veil. A buffer asks for as many bytes behind a veil as in front of it, and
nothing it does depends on its allocator otherwise.
-/
namespace TrackedValues.Veil
variable {α β ε : Type} {V : Veil} {m : Machine}

def text (V : Veil) (b : TextBuffer) : TextBuffer := { b with allocator := V.handle b.allocator }

@[simp]
theorem text_allocator (V : Veil) (b : TextBuffer) :
    (V.text b).allocator = V.handle b.allocator := rfl

@[simp]
theorem text_capacity (V : Veil) (b : TextBuffer) : (V.text b).capacity = b.capacity := rfl

@[simp]
theorem text_len (V : Veil) (b : TextBuffer) : (V.text b).len = b.len := rfl

@[simp]
theorem text_growth (V : Veil) (b : TextBuffer) (target : Nat) :
    (V.text b).growth target = b.growth target := rfl

theorem text_truncate (V : Veil) (b : TextBuffer) (len : Nat) :
    V.text (b.truncate len) = (V.text b).truncate len := by
  by_cases shorter : len < b.len
  · simp only [TextBuffer.truncate, text_len, shorter, ↓reduceIte]
    rfl
  · simp only [TextBuffer.truncate, text_len, shorter, ↓reduceIte]

theorem text_clear (V : Veil) (b : TextBuffer) : V.text b.clear = (V.text b).clear := rfl

theorem text_withPolicy (V : Veil) (b : TextBuffer) (policy : GrowthPolicy) :
    V.text (b.withPolicy policy) = (V.text b).withPolicy policy := rfl

theorem performs_growTo (V : Veil) (b : TextBuffer) (target : Nat) (m : Machine) :
    V.Performs id V.text m (b.growTo target m) ((V.text b).growTo target) := by
  unfold Performs
  rcases TextBuffer.growTo_cases b target m with ⟨enough, same⟩ | ⟨short, excessive, same⟩ |
    ⟨short, addressable, block, m', granted, same⟩ | ⟨_, _, m', refused, same⟩
  · rw [same]
    exact follows_here fun n => if_pos enough
  · have short := Nat.not_le.mpr short
    rw [same]
    apply follows_here
    intro n
    simp only [TextBuffer.growTo, text_capacity, short, excessive, ↓reduceIte]
    rfl
  · have short := Nat.not_le.mpr short
    have addressable := Nat.not_lt.mpr addressable
    have grown : m'.events = m.events := by rw [← m.request_events b.allocator, granted]
    rw [same]
    refine ⟨⟨[_], congrArg (_ :: ·) grown.symm⟩, fun _ n hides => ?_⟩
    obtain ⟨n', granted', after⟩ := hides_granted hides (fun _ => rfl) granted
    refine ⟨_, hides_emit after (.bufferGrown b.capacity target b.len), ?_⟩
    simp only [TextBuffer.growTo, text_capacity, text_allocator, text_growth, text_len, short,
      addressable, ↓reduceIte, granted']
    simp only [TextBuffer.extend, text, hides.scratch]
    rfl
  · have grown : m'.events = m.events := by rw [← m.request_events b.allocator, refused]
    rw [same]
    exact follows_refused trivial grown

theorem performs_reserve (V : Veil) (b : TextBuffer) (additional : Nat) (m : Machine) :
    V.Performs id V.text m (b.reserve additional m) ((V.text b).reserve additional) := by
  have grown := V.performs_growTo b (b.policy.nextCapacity b.capacity (b.len + additional)) m
  by_cases excessive : wordMax < b.len + additional
  · have failed (c : TextBuffer) (len : c.len = b.len) (m : Machine) :
        c.reserve additional m = ⟨.error ⟨wordMax⟩, c, m⟩ := by
      simp only [TextBuffer.reserve, len, excessive, ↓reduceIte]
    rw [failed b rfl]
    exact follows_here (failed (V.text b) rfl)
  · by_cases enough : b.len + additional ≤ b.capacity
    · have done (c : TextBuffer) (len : c.len = b.len) (capacity : c.capacity = b.capacity)
          (m : Machine) : c.reserve additional m = ⟨.ok (), c, m⟩ := by
        simp only [TextBuffer.reserve, len, capacity, excessive, enough, ↓reduceIte]
      rw [done b rfl rfl]
      exact follows_here (done (V.text b) rfl rfl)
    · have through (c : TextBuffer) (len : c.len = b.len) (capacity : c.capacity = b.capacity)
          (m : Machine) : c.reserve additional m =
            c.growTo (c.policy.nextCapacity b.capacity (b.len + additional)) m := by
        simp only [TextBuffer.reserve, len, capacity, excessive, enough, ↓reduceIte]
      rw [through b rfl rfl, funext (through (V.text b) rfl rfl)]
      exact grown

theorem performs_append (V : Veil) (b : TextBuffer) (bytes : List UInt8) (m : Machine) :
    V.Performs id V.text m (b.append bytes m) ((V.text b).append bytes) :=
  performs_andThen (V.performs_reserve b bytes.length m) fun _ _ _ => follows_here fun _ => rfl

theorem performs_appendAll (V : Veil) (b : TextBuffer) (pieces : List (List UInt8)) (m : Machine) :
    V.Performs id V.text m (b.appendAll pieces m) ((V.text b).appendAll pieces) := by
  induction pieces generalizing b m with
  | nil => exact follows_here fun _ => rfl
  | cons piece more ih => exact performs_andThen (V.performs_append b piece m) fun _ b m => ih b m

theorem performs_pushTimes (V : Veil) (b : TextBuffer) (byte : UInt8) (times count : Nat)
    (m : Machine) :
    V.Performs id V.text m (b.pushTimes byte times count m)
      ((V.text b).pushTimes byte times count) := by
  induction times generalizing b count m with
  | zero => exact follows_here fun _ => rfl
  | succ times ih =>
    have pushed : V.Performs id V.text m (b.push byte m) ((V.text b).push byte) :=
      V.performs_append b [byte] m
    rw [TextBuffer.pushTimes]
    generalize b.push byte m = o at *
    obtain ⟨result, target, m'⟩ := o
    cases result with
    | ok _ =>
      apply follows_then pushed (ih target (count + 1) m')
      intro n n' ended
      rw [TextBuffer.pushTimes, ended]
      rfl
    | error e =>
      apply follows_map pushed
      intro n n' ended
      rw [TextBuffer.pushTimes, ended]
      rfl

theorem carries_releaseText (V : Veil) (b : TextBuffer) :
    V.Carries b.release (V.text b).release := by
  by_cases vacant : b.capacity = 0
  · have nothing (c : TextBuffer) (capacity : c.capacity = b.capacity) : c.release = id := by
      funext m
      exact if_pos (capacity.trans vacant)
    rw [nothing b rfl, nothing (V.text b) rfl]
    exact V.carries_nothing
  · have given (c : TextBuffer) (capacity : c.capacity = b.capacity) :
        c.release = (Machine.release · c.allocator b.capacity) := by
      funext m
      rw [TextBuffer.release, capacity]
      exact if_neg vacant
    rw [given b rfl, given (V.text b) rfl]
    exact V.carries_release fun _ => rfl

theorem answers_built {o : Outcome AllocationError TextBuffer Unit}
    {work : Machine → Outcome AllocationError TextBuffer Unit}
    (first : V.Performs id V.text m o work) :
    V.Answers (Except.map V.text) m (TextBuffer.built o) fun n => TextBuffer.built (work n) := by
  obtain ⟨result, target, m'⟩ := o
  cases result with
  | ok _ =>
    apply follows_map first
    intro n n' ended
    rw [ended]
    rfl
  | error e =>
    have released := V.carries_releaseText target
    apply follows_then first (follows_last released)
    intro n n' ended
    rw [ended]
    rfl

theorem answers_ofBytes (V : Veil) (a : Allocator) (bytes : List UInt8) (m : Machine) :
    V.Answers (Except.map V.text) m (TextBuffer.ofBytes a bytes m)
      (TextBuffer.ofBytes (V.handle a) bytes) := by
  have grown := V.performs_growTo (.empty a) bytes.length m
  exact answers_built (performs_andThen grown fun _ b m => V.performs_append b bytes m)

theorem answers_duplicateText (V : Veil) (b : TextBuffer) (m : Machine) :
    V.Answers (Except.map V.text) m (b.duplicate m) (V.text b).duplicate := by
  have grown := V.performs_growTo (.empty b.allocator) b.len m
  exact answers_built
    (performs_andThen grown fun _ c m => V.performs_append (c.withPolicy b.policy) b.content m)

theorem answers_plan (V : Veil) (plan : TextPlan) (a : Allocator) (bytes : List UInt8)
    (m : Machine) :
    V.Answers (Except.map V.text) m (plan.build a bytes m) (plan.build (V.handle a) bytes) := by
  cases plan with
  | exact => exact V.answers_ofBytes a bytes m
  | grown capacity policy =>
    have grown := V.performs_growTo (.empty a) capacity m
    exact answers_built
      (performs_andThen grown fun _ b m => V.performs_append (b.withPolicy policy) bytes m)

end TrackedValues.Veil
