import TrackedValues.Proofs.Session.VeiledViews
import TrackedValues.Session.Literal

/-!
Sessions behind a veil. Behind it a session owns the same values under the same names. Finding,
building and moving values between registers does there what it does in front of the veil.
-/
namespace TrackedValues.Veil
variable {α β σ τ : Type} {V : Veil} {s : Session} {f : α → β}

def arrangement : Veil → Arrangement → Arrangement
  | trackers, _ => .plain
  | limits, a => { a with limits := [], inner := none }

def block (V : Veil) (b : Block) : Block := { b with allocator := V.handle b.allocator }

def session (V : Veil) (s : Session) (n : Machine) : Session where
  arrangement := V.arrangement s.arrangement
  machine := n
  registers := s.registers.map fun r => (r.1, V.value r.2)
  blocks := s.blocks.map fun b => (b.1, V.block b.2)

@[simp]
theorem machine_session (V : Veil) (s : Session) (n : Machine) : (V.session s n).machine = n := rfl

@[simp]
theorem on_session (V : Veil) (s : Session) (n n' : Machine) :
    (V.session s n).on n' = V.session s n' := rfl

theorem allocator_session (V : Veil) (s : Session) (n : Machine) (k : Nat) :
    (V.session s n).allocator k = V.handle (s.allocator k) := by
  cases V with
  | trackers => rfl
  | limits => rfl

theorem lookup_named (registers : List (String × Value)) (name : String) :
    (registers.map fun r => (r.1, V.value r.2)).lookup name =
      (registers.lookup name).map V.value := by
  induction registers with
  | nil => rfl
  | cons r more ih =>
    rw [List.map_cons, List.lookup_cons, List.lookup_cons, ih]
    split <;> rfl

theorem register_session (V : Veil) (s : Session) (n : Machine) (name : String) :
    (V.session s n).register? name = (s.register? name).map V.value :=
  lookup_named s.registers name

theorem unbind_session (V : Veil) (s : Session) (n : Machine) (name : String) :
    (V.session s n).unbind name = V.session (s.unbind name) n := by
  simp only [Session.unbind, session, List.filter_map]
  rfl

theorem bind_session (V : Veil) (s : Session) (n : Machine) (name : String) (v : Value) :
    (V.session s n).bind name (V.value v) = V.session (s.bind name v) n := by
  simp only [Session.bind, unbind_session]
  rfl

theorem take_session (V : Veil) (s : Session) (n : Machine) (name : String) :
    (V.session s n).take name =
      ((s.take name).1.map V.value, V.session (s.take name).2 n) := by
  simp only [Session.take, register_session]
  cases s.register? name with
  | none => rfl
  | some v =>
    simp only [Option.map, unbind_session]
    rfl

def Acts (V : Veil) (f : α → β) (s : Session) (answer : α × Session)
    (work : Machine → β × Session) : Prop :=
  V.Follows s.machine answer.2.machine work fun n => (f answer.1, V.session answer.2 n)

theorem follows_drop (V : Veil) (s : Session) (name : String) :
    V.Follows s.machine (s.drop name).machine (fun n => (V.session s n).drop name)
      (V.session (s.drop name)) := by
  unfold Session.drop
  cases here : s.register? name with
  | none =>
    apply follows_here
    intro n
    rw [register_session, here]
    rfl
  | some v =>
    apply follows_map (V.carries_releaseValue v s.machine)
    intro n n' ended
    rw [register_session, here]
    simp only [Option.map, unbind_session]
    exact congrArg (V.session (s.unbind name)) ended

theorem follows_rebind (V : Veil) (s : Session) (name : String) (v : Value) :
    V.Follows s.machine (s.rebind name v).machine
      (fun n => (V.session s n).rebind name (V.value v)) (V.session (s.rebind name v)) := by
  apply follows_map (V.follows_drop s name)
  intro n n' ended
  rw [Session.rebind, ended, bind_session]
  rfl

theorem acts_take (V : Veil) (s : Session) (name : String) :
    V.Acts (Except.map V.value) s (s.take name) fun n => (V.session s n).take name := by
  have unmoved : (s.take name).2.machine = s.machine := by
    unfold Session.take
    split <;> rfl
  unfold Acts
  rw [unmoved]
  exact follows_here fun n => V.take_session s n name

theorem acts_copy (V : Veil) (s : Session) (name : String) :
    V.Acts (Except.map V.value) s (s.copy name) fun n => (V.session s n).copy name := by
  unfold Acts Session.copy
  cases here : s.register? name with
  | none =>
    apply follows_here
    intro n
    rw [register_session, here]
    rfl
  | some v =>
    have copied := V.makes_duplicate v s.machine
    unfold Answers at copied
    dsimp only
    generalize v.duplicate s.machine = answer at *
    obtain ⟨result, m⟩ := answer
    cases result with
    | ok copy =>
      apply follows_map copied
      intro n n' ended
      rw [register_session, here]
      simp only [Option.map, machine_session, ended]
      rfl
    | error e =>
      apply follows_map copied
      intro n n' ended
      rw [register_session, here]
      simp only [Option.map, machine_session, ended]
      rfl

mutual

/-- The parts of a literal are built one after another, so this is by the parts. -/
theorem acts_build (V : Veil) : (literal : Literal) → (s : Session) →
    V.Acts (Except.map V.value) s (s.build literal) fun n => (V.session s n).build literal
  | .integer n, s => by
    unfold Session.build
    exact follows_here fun _ => rfl
  | .real x, s => by
    unfold Session.build
    exact follows_here fun _ => rfl
  | .boolean b, s => by
    unfold Session.build
    exact follows_here fun _ => rfl
  | .text bytes plan k, s => by
    have made := V.answers_plan plan (s.allocator k) bytes s.machine
    unfold Acts Session.build
    unfold Answers at made
    generalize plan.build (s.allocator k) bytes s.machine = answer at *
    obtain ⟨result, m⟩ := answer
    cases result with
    | ok b =>
      apply follows_map made
      intro n n' ended
      simp only [allocator_session, machine_session, ended]
      rfl
    | error e =>
      apply follows_map made
      intro n n' ended
      simp only [allocator_session, machine_session, ended]
      rfl
  | .list items capacity k, s => by
    have made := V.answers_withCapacity V.value (s.allocator k) capacity s.machine
    unfold Acts Session.build
    unfold Answers at made
    generalize SlotList.withCapacity (s.allocator k) capacity s.machine = answer at *
    obtain ⟨result, m⟩ := answer
    cases result with
    | ok l =>
      have rest := acts_buildItems V items l (s.on m)
      apply follows_then made rest
      intro n n' ended
      simp only [allocator_session, machine_session, ended]
      rfl
    | error e =>
      apply follows_map made
      intro n n' ended
      simp only [allocator_session, machine_session, ended]
      rfl
  | .take name, s => by
    unfold Session.build
    exact V.acts_take s name
  | .copy name, s => by
    unfold Session.build
    exact V.acts_copy s name

theorem acts_buildItems (V : Veil) : (items : List Literal) → (l : ValueList) → (s : Session) →
    V.Acts (Except.map V.value) s (Session.buildItems l items s) fun n =>
      Session.buildItems (V.list l) items (V.session s n)
  | [], l, s => by
    unfold Session.buildItems
    apply follows_here
    intro n
    simp only [Except.map, value_list]
  | item :: more, l, s => by
    have first := acts_build V item s
    unfold Acts Session.buildItems
    unfold Acts at first
    generalize s.build item = answer at *
    obtain ⟨result, s'⟩ := answer
    cases result with
    | error f =>
      have released := V.carries_releaseList l
      apply follows_then first (follows_last released)
      intro n n' ended
      rw [ended]
      rfl
    | ok v =>
      have pushed := V.performs_pushBackList l v s'.machine
      unfold Performs at pushed
      dsimp only
      generalize ValueList.pushBack l v s'.machine = o at *
      obtain ⟨result, longer, m⟩ := o
      cases result with
      | ok _ =>
        have rest := acts_buildItems V more longer (s'.on m)
        apply follows_then_then first pushed rest
        intro n n' n'' ended ended'
        rw [ended]
        simp only [Except.map, machine_session, ended']
        rfl
      | error e =>
        have released := V.carries_releaseList longer
        apply follows_then_then first pushed (follows_last released)
        intro n n' n'' ended ended'
        rw [ended]
        simp only [Except.map, machine_session, ended']
        rfl

end

end TrackedValues.Veil
