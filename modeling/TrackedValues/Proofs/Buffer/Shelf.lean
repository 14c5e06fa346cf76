import TrackedValues.Proofs.Buffer.Scratch
import TrackedValues.Proofs.Value.Canonical
import TrackedValues.Session.Command

/-!
Shelves: some buffers on one machine, made, worked on and copied in any order. Each of them stands
for a byte string, to which the work that succeeds is done; what its scratch bytes are, and what
was there before, cannot be found out.
-/
namespace TrackedValues

structure Shelf where
  machine : Machine
  buffers : List TextBuffer := []

namespace Shelf
open TextBuffer (Work AgreeMade)

inductive Handling
  | roomy (a : Allocator) (capacity : Nat)
  | filled (a : Allocator) (bytes : List UInt8)
  | work (n : Nat) (w : Work)
  | clone (n : Nat)

def add (s : Shelf) (answer : Except AllocationError TextBuffer × Machine) : Reply × Shelf :=
  match answer with
  | (.ok b, m) => (.done, ⟨m, s.buffers ++ [b]⟩)
  | (.error e, m) => (.failed (.storage e), ⟨m, s.buffers⟩)

def reply (w : Work) (result : Except AllocationError Unit) : Reply :=
  match w with
  | .writeText _ => .ofWriting (.ok result)
  | _ => .ofWork (.ok result)

def perform (s : Shelf) : Handling → Reply × Shelf
  | .roomy a capacity => s.add (TextBuffer.withCapacity a capacity s.machine)
  | .filled a bytes => s.add (TextBuffer.ofBytes a bytes s.machine)
  | .work n w =>
    match s.buffers[n]? with
    | none => (.absent, s)
    | some b =>
      let o := w.perform b s.machine
      (reply w o.result, ⟨o.machine, s.buffers.set n o.target⟩)
  | .clone n =>
    match s.buffers[n]? with
    | none => (.absent, s)
    | some b => s.add (b.duplicate s.machine)

def run (s : Shelf) : List Handling → List Reply × Shelf
  | [] => ([], s)
  | h :: more =>
    let first := s.perform h
    let rest := first.2.run more
    (first.1 :: rest.1, rest.2)

theorem run_append (s : Shelf) (first second : List Handling) :
    (s.run (first ++ second)).2 = ((s.run first).2.run second).2 := by
  induction first generalizing s with
  | nil => rfl
  | cons h more ih => exact ih _

def contents (s : Shelf) : List (List UInt8) := s.buffers.map TextBuffer.content

def Handling.effect : Handling → List (List UInt8) → List (List UInt8)
  | roomy _ _, contents => contents ++ [[]]
  | filled _ bytes, contents => contents ++ [bytes]
  | work n w, contents => contents.modify n w.effect
  | clone n, contents => contents ++ contents[n]?.toList

def Handling.after (h : Handling) (reply : Reply) (contents : List (List UInt8)) :
    List (List UInt8) :=
  match reply with
  | .done => h.effect contents
  | _ => contents

/-- What the replies to some handling say has become of the byte strings. -/
def told (contents : List (List UInt8)) : List Handling → List Reply → List (List UInt8)
  | h :: more, reply :: replies => told (h.after reply contents) more replies
  | _, _ => contents

def Sound (s : Shelf) : Prop := ∀ b ∈ s.buffers, b.Sound

variable {s s' : Shelf} {scratch : Nat → Nat → UInt8}

theorem sound_add (sound : s.Sound) {m : Machine}
    {answer : Except AllocationError TextBuffer × Machine} (made : TextBuffer.Made m answer) :
    (s.add answer).2.Sound := by
  obtain ⟨result, m'⟩ := answer
  cases result with
  | ok b =>
    intro c member
    rcases List.mem_append.mp member with old | new
    · exact sound c old
    · rw [List.mem_singleton.mp new]
      exact made.1
  | error e => exact sound

theorem sound_perform (sound : s.Sound) (h : Handling) : (s.perform h).2.Sound := by
  cases h with
  | roomy a capacity => exact sound_add sound (TextBuffer.made_withCapacity a capacity s.machine)
  | filled a bytes => exact sound_add sound (TextBuffer.made_ofBytes a bytes s.machine)
  | work n w =>
    simp only [perform]
    split
    · exact sound
    · rename_i b found
      intro c member
      rcases List.mem_or_eq_of_mem_set member with old | rfl
      · exact sound c old
      · exact (w.keeps_perform b s.machine).sound (sound b (List.mem_of_getElem? found))
  | clone n =>
    simp only [perform]
    split
    · exact sound
    · rename_i b found
      exact sound_add sound (TextBuffer.made_duplicate b s.machine)

theorem contents_add {answer : Except AllocationError TextBuffer × Machine} {h : Handling}
    {bytes : List UInt8} (effect : h.effect s.contents = s.contents ++ [bytes])
    (content : ∀ b, answer.1 = .ok b → b.content = bytes) :
    (s.add answer).2.contents = h.after (s.add answer).1 s.contents := by
  obtain ⟨result, m⟩ := answer
  cases result with
  | ok b =>
    have same := content b rfl
    simp only [add, contents, Handling.after, List.map_append, List.map_cons, List.map_nil, same]
    exact effect.symm
  | error e => rfl

theorem trimmed_of_duplicate {b c : TextBuffer} (sound : b.Sound) {m : Machine}
    (copied : (b.duplicate m).1 = .ok c) : c = b.trimmed := by
  rcases TextBuffer.duplicate_cases sound m with ⟨_, same⟩ | ⟨_, _, _, _, _, same⟩ |
    ⟨_, _, _, same⟩
  · rw [same] at copied
    exact (Except.ok.inj copied).symm
  · rw [same] at copied
    exact (Except.ok.inj copied).symm
  · rw [same] at copied
    cases copied

theorem contents_work {n : Nat} {b : TextBuffer} (sound : b.Sound) (found : s.buffers[n]? = some b)
    (w : Work) :
    (s.perform (.work n w)).2.contents =
      (Handling.work n w).after (s.perform (.work n w)).1 s.contents := by
  have content := w.content_perform sound.inside s.machine
  have here : s.contents[n]? = some b.content := by simp [contents, found]
  have set : (s.perform (.work n w)).2.contents =
      s.contents.set n (w.perform b s.machine).target.content := by
    simp only [perform, found, contents, List.map_set]
  have answered : (s.perform (.work n w)).1 = reply w (w.perform b s.machine).result := by
    simp only [perform, found]
  rw [set, answered, content]
  cases (w.perform b s.machine).result with
  | ok _ =>
    have done : reply w (.ok ()) = .done := by cases w <;> rfl
    rw [done]
    simp only [Handling.after, Handling.effect]
    rw [List.modify_eq_set_getElem?, here]
    rfl
  | error e =>
    have failed : ∃ f, reply w (.error e) = .failed f := by cases w <;> exact ⟨_, rfl⟩
    obtain ⟨f, failed⟩ := failed
    rw [failed]
    obtain ⟨inside, value⟩ := List.getElem?_eq_some_iff.mp here
    rw [← value]
    exact List.set_getElem_self inside

theorem contents_perform (sound : s.Sound) (h : Handling) :
    (s.perform h).2.contents = h.after (s.perform h).1 s.contents := by
  cases h with
  | roomy a capacity => exact contents_add rfl fun _ => TextBuffer.content_withCapacity
  | filled a bytes => exact contents_add rfl fun _ => TextBuffer.content_ofBytes
  | work n w =>
    cases found : s.buffers[n]? with
    | none => simp only [perform, found, Handling.after]
    | some b => exact contents_work (sound b (List.mem_of_getElem? found)) found w
  | clone n =>
    cases found : s.buffers[n]? with
    | none => simp only [perform, found, Handling.after]
    | some b =>
      have here : s.contents[n]? = some b.content := by simp [contents, found]
      have performed : s.perform (.clone n) = s.add (b.duplicate s.machine) := by
        simp only [perform, found]
      rw [performed]
      have effect : (Handling.clone n).effect s.contents = s.contents ++ [b.content] := by
        simp [Handling.effect, here]
      apply contents_add effect
      intro c copied
      have sound := sound b (List.mem_of_getElem? found)
      rw [trimmed_of_duplicate sound copied, TextBuffer.content_trimmed sound]

theorem capacity_perform (h : Handling) {n : Nat} {b : TextBuffer}
    (found : s.buffers[n]? = some b) :
    ∃ c, (s.perform h).2.buffers[n]? = some c ∧ b.capacity ≤ c.capacity := by
  have added : ∀ answer, (s.add answer).2.buffers[n]? = some b := by
    rintro ⟨result, m⟩
    cases result with
    | ok c => exact (List.getElem?_append_left (List.getElem?_eq_some_iff.mp found).1).trans found
    | error e => exact found
  cases h with
  | roomy a capacity => exact ⟨b, added _, Nat.le_refl _⟩
  | filled a bytes => exact ⟨b, added _, Nat.le_refl _⟩
  | work i w =>
    simp only [perform]
    split
    · exact ⟨b, found, Nat.le_refl _⟩
    · rename_i c there
      by_cases same : i = n
      · subst same
        rw [there] at found
        cases found
        have inside := (List.getElem?_eq_some_iff.mp there).1
        exact ⟨_, List.getElem?_set_self inside, w.capacity_le_perform _ s.machine⟩
      · exact ⟨b, (List.getElem?_set_ne same).trans found, Nat.le_refl _⟩
  | clone i =>
    simp only [perform]
    split
    · exact ⟨b, found, Nat.le_refl _⟩
    · exact ⟨b, added _, Nat.le_refl _⟩

structure Agree (scratch : Nat → Nat → UInt8) (s s' : Shelf) : Prop where
  machine : s'.machine = s.machine.withScratch scratch
  faces : s'.buffers.map TextBuffer.face = s.buffers.map TextBuffer.face

theorem agree_add (agree : Agree scratch s s')
    {answer answer' : Except AllocationError TextBuffer × Machine}
    (made : AgreeMade scratch answer answer') :
    (s'.add answer').1 = (s.add answer).1 ∧ Agree scratch (s.add answer).2 (s'.add answer').2 := by
  obtain ⟨result, m⟩ := answer
  obtain ⟨result', m'⟩ := answer'
  obtain ⟨same, machine⟩ := made
  cases result with
  | ok b =>
    cases result' with
    | ok c =>
      refine ⟨rfl, machine, ?_⟩
      have face : c.face = b.face := Except.ok.inj same
      simp only [add, List.map_append, List.map_cons, List.map_nil, agree.faces, face]
    | error e => cases same
  | error e =>
    cases result' with
    | ok c => cases same
    | error f =>
      cases same
      exact ⟨rfl, machine, agree.faces⟩

theorem agree_perform (agree : Agree scratch s s') (sound : s.Sound) (h : Handling) :
    (s'.perform h).1 = (s.perform h).1 ∧ Agree scratch (s.perform h).2 (s'.perform h).2 := by
  have same (n : Nat) : s'.buffers[n]?.map TextBuffer.face = s.buffers[n]?.map TextBuffer.face := by
    rw [← List.getElem?_map, ← List.getElem?_map, agree.faces]
  cases h with
  | roomy a capacity =>
    simp only [perform, agree.machine]
    exact agree_add agree (TextBuffer.agree_withCapacity a capacity s.machine)
  | filled a bytes =>
    simp only [perform, agree.machine]
    exact agree_add agree (TextBuffer.agree_ofBytes a bytes s.machine)
  | work n w =>
    have same := same n
    cases found : s.buffers[n]? with
    | none =>
      rw [found, Option.map_none, Option.map_eq_none_iff] at same
      simp only [perform, found, same]
      exact ⟨trivial, agree⟩
    | some b =>
      rw [found, Option.map_some, Option.map_eq_some_iff] at same
      obtain ⟨c, there, face⟩ := same
      have inside := (sound b (List.mem_of_getElem? found)).inside
      have worked : TextBuffer.Agree scratch (w.perform b s.machine) _ :=
        w.agree_perform face inside s.machine
      simp only [perform, found, there, agree.machine]
      refine ⟨congrArg (reply w) worked.result, worked.machine, ?_⟩
      rw [List.map_set, List.map_set, agree.faces, worked.face]
  | clone n =>
    have same := same n
    cases found : s.buffers[n]? with
    | none =>
      rw [found, Option.map_none, Option.map_eq_none_iff] at same
      simp only [perform, found, same]
      exact ⟨trivial, agree⟩
    | some b =>
      rw [found, Option.map_some, Option.map_eq_some_iff] at same
      obtain ⟨c, there, face⟩ := same
      simp only [perform, found, there, agree.machine]
      exact agree_add agree (TextBuffer.agree_duplicate face s.machine)

theorem sound_run (sound : s.Sound) (work : List Handling) : (s.run work).2.Sound := by
  induction work generalizing s with
  | nil => exact sound
  | cons h more ih => exact ih (sound_perform sound h)

theorem contents_run (sound : s.Sound) (work : List Handling) :
    (s.run work).2.contents = told s.contents work (s.run work).1 := by
  induction work generalizing s with
  | nil => rfl
  | cons h more ih =>
    have rest := ih (sound_perform sound h)
    rw [contents_perform sound h] at rest
    exact rest

theorem capacity_run (work : List Handling) {n : Nat} {b : TextBuffer}
    (found : s.buffers[n]? = some b) :
    ∃ c, (s.run work).2.buffers[n]? = some c ∧ b.capacity ≤ c.capacity := by
  induction work generalizing s b with
  | nil => exact ⟨b, found, Nat.le_refl _⟩
  | cons h more ih =>
    obtain ⟨c, after, first⟩ := capacity_perform h found
    obtain ⟨d, later, rest⟩ := ih after
    exact ⟨d, later, Nat.le_trans first rest⟩

theorem agree_run (agree : Agree scratch s s') (sound : s.Sound) (work : List Handling) :
    (s'.run work).1 = (s.run work).1 ∧ Agree scratch (s.run work).2 (s'.run work).2 := by
  induction work generalizing s s' with
  | nil => exact ⟨rfl, agree⟩
  | cons h more ih =>
    obtain ⟨reply, after⟩ := agree_perform agree sound h
    obtain ⟨replies, agree⟩ := ih after (sound_perform sound h)
    exact ⟨congrArg₂ List.cons reply replies, agree⟩

theorem map_eq_of_faces {β : Type} {g : TextBuffer → β}
    (congr : ∀ b c : TextBuffer, c.face = b.face → g c = g b) {bs cs : List TextBuffer}
    (same : cs.map TextBuffer.face = bs.map TextBuffer.face) : cs.map g = bs.map g := by
  rw [← List.forall₂_eq_eq_eq, List.forall₂_map_left_iff, List.forall₂_map_right_iff] at same ⊢
  exact same.imp fun c b => congr b c

/-- Everything that can be found out about the buffers by looking at them or comparing them. -/
def shown (s : Shelf) : List TextBuffer.View × List (List BufferComparison) :=
  (s.buffers.map TextBuffer.view, s.buffers.map fun b => s.buffers.map b.compareWith)

theorem shown_of_agree (agree : Agree scratch s s') : s'.shown = s.shown := by
  have content : ∀ b c : TextBuffer, c.face = b.face → c.content = b.content :=
    fun b c same => (TextBuffer.face_eq_iff.mp same).2.2.1
  have views : s'.buffers.map TextBuffer.view = s.buffers.map TextBuffer.view := by
    apply map_eq_of_faces _ agree.faces
    intro b c same
    obtain ⟨_, _, content, len, capacity⟩ := TextBuffer.face_eq_iff.mp same
    exact TextBuffer.view_congr content len capacity
  have second : ∀ c : TextBuffer, s'.buffers.map c.compareWith = s.buffers.map c.compareWith := by
    intro c
    exact map_eq_of_faces (fun d e same => TextBuffer.compareWith_congr rfl (content d e same))
      agree.faces
  have both : s'.buffers.map (fun c => s.buffers.map c.compareWith) =
      s.buffers.map fun b => s.buffers.map b.compareWith := by
    apply map_eq_of_faces _ agree.faces
    intro b c same
    exact List.map_congr_left fun d _ => TextBuffer.compareWith_congr (content b c same) rfl
  simp only [shown, views, second, both]

/--
Whatever blocks hold when they are handed out, and whichever requests are refused: the length of a
buffer stays within its capacity, and that within what can be addressed; what it has stored up to
its length is the byte string that the replies tell of; its capacity never shrinks; and what it
shows of itself depends on content, length and capacity alone. So two runs that differ in the bytes
of fresh blocks only have the same replies and show the same, in the end as after every step.
-/
theorem run_hides_scratch (m : Machine) (scratch : Nat → Nat → UInt8) (work : List Handling) :
    let after := run ⟨m, []⟩ work
    let other := run ⟨m.withScratch scratch, []⟩ work
    (∀ b ∈ after.2.buffers, b.len ≤ b.capacity ∧ b.capacity ≤ blockMax) ∧
    after.2.buffers.map (fun b => b.storage.toList.take b.len) = told [] work after.1 ∧
    (∀ (more : List Handling) (n : Nat) (b : TextBuffer), after.2.buffers[n]? = some b →
      ∃ c, (run ⟨m, []⟩ (work ++ more)).2.buffers[n]? = some c ∧ b.capacity ≤ c.capacity) ∧
    (∀ b c : TextBuffer, c.content = b.content → c.len = b.len → c.capacity = b.capacity →
      c.view = b.view ∧
        ∀ d, c.compareWith d = b.compareWith d ∧ d.compareWith c = d.compareWith b) ∧
    other.1 = after.1 ∧ other.2.shown = after.2.shown ∧
      other.2.machine = after.2.machine.withScratch scratch := by
  intro after other
  have nothing : Sound ⟨m, []⟩ := by
    intro b member
    cases member
  have sound : after.2.Sound := sound_run nothing work
  have contents : after.2.contents = told [] work after.1 := contents_run nothing work
  have start : Agree scratch ⟨m, []⟩ ⟨m.withScratch scratch, []⟩ := ⟨rfl, rfl⟩
  obtain ⟨replies, agree⟩ := agree_run start nothing work
  refine ⟨?_, ?_, ?_, ?_, replies, shown_of_agree agree, agree.machine⟩
  · intro b member
    exact ⟨(sound b member).inside, (sound b member).addressable⟩
  · rw [← contents]
    exact List.map_congr_left fun b _ => b.content_eq_take.symm
  · intro more n b found
    rw [run_append]
    exact capacity_run more found
  · intro b c content len capacity
    refine ⟨TextBuffer.view_congr content len capacity, fun d => ?_⟩
    exact ⟨TextBuffer.compareWith_congr content rfl, TextBuffer.compareWith_congr rfl content⟩

end Shelf
end TrackedValues
