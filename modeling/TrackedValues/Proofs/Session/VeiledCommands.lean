import TrackedValues.Proofs.Session.Veil
import TrackedValues.Session.Script

/-!
Commands behind a veil. Every command on values replies there what it replies in front of the veil
and leaves the same session; only what is shown of allocators and counters is seen through it.
-/
namespace TrackedValues

/-- A command on values, texts and lists, and not on trackers or on raw blocks. -/
def Command.OnValues : Command → Prop
  | setLimit _ _ | setRoom _ _ | describe _ | allocate _ _ _ | resize _ _ _ | deallocate _ => False
  | _ => True

namespace Veil
variable {α β ε : Type} {V : Veil} {s : Session} {m : Machine} {f : α → β}

theorem mapError_map {κ : Type} (x : Except ε α) (g : ε → κ) :
    (x.map f).mapError g = (x.mapError g).map f := by
  cases x <;> rfl

def reached (lost : Session → Session) (next : α → Session → Reply × Session) :
    Except Failure (Option α) × Session → Reply × Session
  | (.ok (some a), s) => next a s
  | (missing, s) => (.ofMissing missing, lost s)

theorem acts_reached {answer : Except Failure (Option α) × Session}
    {work : Machine → Except Failure (Option β) × Session} {lost lost' : Session → Session}
    {next : α → Session → Reply × Session} {next' : β → Session → Reply × Session}
    (first : V.Acts (Except.map (Option.map f)) s answer work)
    (missed : ∀ s, V.Follows s.machine (lost s).machine (fun n => lost' (V.session s n))
      (V.session (lost s)))
    (further : ∀ a s, V.Acts V.reply s (next a s) fun n => next' (f a) (V.session s n)) :
    V.Acts V.reply s (reached lost next answer) fun n => reached lost' next' (work n) := by
  obtain ⟨found, s'⟩ := answer
  cases found with
  | error e =>
    apply follows_both first (missed s')
    intro n n' n'' ended ended'
    rw [ended]
    exact congrArg (Prod.mk _) ended'
  | ok found =>
    cases found with
    | none =>
      apply follows_both first (missed s')
      intro n n' n'' ended ended'
      rw [ended]
      exact congrArg (Prod.mk _) ended'
    | some a =>
      apply follows_then first (further a s')
      intro n n' ended
      rw [ended]
      rfl

theorem follows_untouched (V : Veil) (s : Session) :
    V.Follows s.machine (id s).machine (fun n => id (V.session s n)) (V.session (id s)) :=
  follows_here fun _ => rfl

def obtained (next : α → Session → Reply × Session) :
    Except Failure α × Session → Reply × Session
  | (.ok a, s) => next a s
  | (.error e, s) => (.failed e, s)

theorem acts_obtained {answer : Except Failure α × Session}
    {work : Machine → Except Failure β × Session} {next : α → Session → Reply × Session}
    {next' : β → Session → Reply × Session} (first : V.Acts (Except.map f) s answer work)
    (further : ∀ a s, V.Acts V.reply s (next a s) fun n => next' (f a) (V.session s n)) :
    V.Acts V.reply s (obtained next answer) fun n => obtained next' (work n) := by
  obtain ⟨result, s'⟩ := answer
  cases result with
  | error e =>
    apply follows_map first
    intro n n' ended
    rw [ended]
    rfl
  | ok a =>
    apply follows_then first (further a s')
    intro n n' ended
    rw [ended]
    rfl

def kept (keep : Session → Value → Session) (s : Session) :
    Except Error Value × Machine → Reply × Session
  | (.ok v, m) => (.done, keep (s.on m) v)
  | (.error e, m) => (.failed (.value e), s.on m)

theorem acts_kept {answer : Except Error Value × Machine}
    {work : Machine → Except Error Value × Machine} {keep : Session → Value → Session}
    (made : V.Answers (Except.map V.value) s.machine answer work)
    (keeps : ∀ s v, V.Follows s.machine (keep s v).machine
      (fun n => keep (V.session s n) (V.value v)) (V.session (keep s v))) :
    V.Acts V.reply s (kept keep s answer) fun n => kept keep (V.session s n) (work n) := by
  obtain ⟨result, m⟩ := answer
  cases result with
  | error e =>
    apply follows_map made
    intro n n' ended
    rw [ended]
    rfl
  | ok v =>
    apply follows_both made (keeps (s.on m) v)
    intro n n' n'' ended ended'
    rw [ended]
    exact congrArg (Prod.mk Reply.done) ended'

theorem acts_find (V : Veil) (s : Session) (t : Target) :
    V.Acts (Except.map (Option.map V.value)) s (s.find t) fun n => (V.session s n).find t := by
  unfold Acts Session.find
  cases here : s.register? t.register with
  | none =>
    apply follows_here
    intro n
    rw [register_session, here]
    rfl
  | some v =>
    apply follows_map (V.answers_find v t.path s.machine)
    intro n n' ended
    rw [register_session, here]
    simp only [Option.map, machine_session, ended, mapError_map]
    rfl

theorem acts_editTarget {edit : Value.Edit α} {edit' : Value.Edit β} (edits : V.Edits f edit edit')
    (s : Session) (t : Target) :
    V.Acts (Except.map (Option.map f)) s (s.editTarget t edit) fun n =>
      (V.session s n).editTarget t edit' := by
  have taken := V.acts_take s t.register
  unfold Acts Session.editTarget
  unfold Acts at taken
  generalize s.take t.register = answer at *
  obtain ⟨result, s'⟩ := answer
  cases result with
  | error e =>
    apply follows_map taken
    intro n n' ended
    rw [ended]
    rfl
  | ok v =>
    have edited := performs_editAt edits t.path v s'.machine
    apply follows_both taken edited
    intro n n' n'' ended ended'
    rw [ended]
    dsimp only [Except.map]
    simp only [machine_session, on_session, ended', bind_session, mapError_map]
    rfl

theorem acts_look {view view' : Value → Machine → Reply × Machine}
    (each : ∀ v m, V.Answers V.reply m (view v m) (view' (V.value v))) (s : Session) (t : Target) :
    V.Acts V.reply s (s.look t view) fun n => (V.session s n).look t view' := by
  have looks (s : Session) (view : Value → Machine → Reply × Machine) :
      s.look t view =
        reached id (fun v s => ((view v s.machine).1, s.on (view v s.machine).2)) (s.find t) := by
    unfold Session.look
    rcases s.find t with ⟨_ | _ | _, _⟩ <;> rfl
  simp only [looks]
  apply acts_reached (V.acts_find s t) V.follows_untouched
  intro v s
  apply follows_map (each v s.machine)
  intro n n' ended
  simp only [machine_session, on_session, ended]
  rfl

theorem answers_viewing {shown : α → Reply} {shown' : β → Reply}
    {view : Value → Machine → Except Error α × Machine}
    {view' : Value → Machine → Except Error β × Machine}
    (each : ∀ v m, V.Answers (Except.map f) m (view v m) (view' (V.value v)))
    (shows : ∀ a, V.reply (shown a) = shown' (f a)) (v : Value) (m : Machine) :
    V.Answers V.reply m (Session.viewing shown view v m)
      (Session.viewing shown' view' (V.value v)) := by
  apply follows_map (each v m)
  intro n n' ended
  simp only [Session.viewing, ended]
  cases (view v m).1 with
  | error e => rfl
  | ok a => exact congrArg (·, n') (shows a).symm

theorem answers_viewingList {shown : α → Reply} {shown' : β → Reply}
    {view : ValueList → Machine → Except Error α} {view' : ValueList → Machine → Except Error β}
    (each : ∀ l m, V.Answers (Except.map f) m (view l m, m) fun n => (view' (V.list l) n, n))
    (shows : ∀ a, V.reply (shown a) = shown' (f a)) (v : Value) (m : Machine) :
    V.Answers V.reply m (Session.viewingList shown view v m)
      (Session.viewingList shown' view' (V.value v)) := by
  refine answers_viewing (fun v m => ?_) shows v m
  have access : V.Answers (Except.map V.list) m (v.asList m) (V.value v).asList :=
    V.answers_access .list v m
  unfold Answers at *
  generalize v.asList m = answer at *
  obtain ⟨result, m'⟩ := answer
  cases result with
  | error e =>
    apply follows_map access
    intro n n' ended
    rw [ended]
    rfl
  | ok l =>
    apply follows_then access (each l m')
    intro n n' ended
    rw [ended]
    rfl

theorem answers_inspection (V : Veil) (v : Value) (m : Machine) :
    V.Answers V.reply m (.inspection (v.inspect m).1, (v.inspect m).2) fun n =>
      (.inspection ((V.value v).inspect n).1, ((V.value v).inspect n).2) := by
  apply follows_map (V.answers_inspect v m)
  intro n n' ended
  rw [ended]
  rfl

theorem answers_forms (V : Veil) (v : Value) (m : Machine) :
    V.Answers V.reply m (.forms v.forms, m) fun n => (.forms (V.value v).forms, n) := by
  apply follows_here
  intro n
  rw [forms_value]
  rfl

theorem answers_lookingList {shown : α → Reply} {shown' : β → Reply}
    {view : ValueList → Except Error α} {view' : ValueList → Except Error β}
    (commutes : ∀ l, view' (V.list l) = (view l).map f)
    (shows : ∀ a, V.reply (shown a) = shown' (f a)) (v : Value) (m : Machine) :
    V.Answers V.reply m (Session.viewingList shown (fun l _ => view l) v m)
      (Session.viewingList shown' (fun l _ => view' l) (V.value v)) :=
  answers_viewingList (fun l _ => follows_here fun n => congrArg (·, n) (commutes l)) shows v m

theorem answers_get (V : Veil) (position : Nat) (v : Value) (m : Machine) :
    V.Answers V.reply m (Session.viewingList .found (fun l _ => l.get position) v m)
      (Session.viewingList .found (fun l _ => l.get position) (V.value v)) := by
  apply answers_lookingList
  · exact fun l => l.get_recast position
  · exact fun _ => rfl

theorem answers_iterate (V : Veil) (script : List Glance) (v : Value) (m : Machine) :
    V.Answers V.reply m (Session.viewingList .sightings (fun l _ => l.cursor.glances script) v m)
      (Session.viewingList .sightings (fun l _ => l.cursor.glances script) (V.value v)) := by
  apply answers_lookingList
  · exact fun l => V.glances_recast script l.cursor
  · exact fun _ => rfl

/-- A buffer is shown with the counters of its own allocator. -/
theorem answers_textState (V : Veil) (v : Value) (m : Machine) :
    V.Answers V.reply m
      (Session.viewing (fun b => .textState b (m.heap.statsOf b.allocator)) Value.asText v m)
      fun n => Session.viewing (fun b => .textState b (n.heap.statsOf b.allocator)) Value.asText
        (V.value v) n := by
  cases v with
  | text b =>
    refine ⟨List.suffix_refl _, fun _ n hides => ⟨n, hides, ?_⟩⟩
    have stats : n.heap.statsOf (V.text b).allocator = V.counters (m.heap.statsOf b.allocator) :=
      statsOf_hides hides b.allocator
    exact congrArg (fun stats => (Reply.textState (V.text b) stats, n)) stats
  | list l =>
    rw [value_list]
    exact V.follows_emit m _ fun _ => rfl
  | _ => exact V.follows_emit m _ fun _ => rfl

theorem acts_clone (V : Veil) (s : Session) (t : Target) (destination : String) :
    V.Acts V.reply s (s.clone t destination) fun n => (V.session s n).clone t destination := by
  have clones (s : Session) : s.clone t destination =
      reached id (fun v s => kept (·.rebind destination) s (v.duplicate s.machine)) (s.find t) := by
    unfold Session.clone
    rcases s.find t with ⟨_ | _ | v, s'⟩
    · rfl
    · rfl
    · dsimp only [reached]
      rcases v.duplicate s'.machine with ⟨_ | _, _⟩ <;> rfl
  simp only [clones]
  apply acts_reached (V.acts_find s t) V.follows_untouched
  intro v s
  apply acts_kept (V.makes_duplicate v s.machine)
  intro s v
  exact V.follows_rebind s destination v

theorem acts_compare (V : Veil) (s : Session) (t other : Target) :
    V.Acts V.reply s (s.compare t other) fun n => (V.session s n).compare t other := by
  have compares (s : Session) : s.compare t other =
      reached id (fun v s =>
        reached id (fun w s => (.comparison (v.compareWith w), s)) (s.find other)) (s.find t) := by
    unfold Session.compare
    rcases s.find t with ⟨_ | _ | _, s'⟩
    · rfl
    · rfl
    · dsimp only [reached]
      rcases s'.find other with ⟨_ | _ | _, _⟩ <;> rfl
  simp only [compares]
  apply acts_reached (V.acts_find s t) V.follows_untouched
  intro v s
  apply acts_reached (V.acts_find s other) V.follows_untouched
  intro w s
  apply follows_here
  intro n
  rw [compareWith_value]
  rfl

theorem acts_edit {work work' : Value.Edit Reply} (edits : V.Edits V.reply work work')
    (s : Session) (t : Target) :
    V.Acts V.reply s (s.edit t work) fun n => (V.session s n).edit t work' := by
  have reaches (s : Session) (work : Value.Edit Reply) :
      s.edit t work = reached id (fun reply s => (reply, s)) (s.editTarget t work) := by
    unfold Session.edit
    rcases s.editTarget t work with ⟨_ | _ | _, _⟩ <;> rfl
  simp only [reaches]
  apply acts_reached (acts_editTarget edits s t) V.follows_untouched
  exact fun _ _ => follows_here fun _ => rfl

theorem acts_editWith {work work' : Value → Value.Edit Reply}
    (edits : ∀ built, V.Edits V.reply (work built) (work' (V.value built))) (s : Session)
    (t : Target) (v : Literal) :
    V.Acts V.reply s (s.editWith t v work) fun n => (V.session s n).editWith t v work' := by
  have through (s : Session) (work : Value → Value.Edit Reply) : s.editWith t v work =
      obtained (fun built s =>
        reached (fun s => s.on (built.release s.machine)) (fun reply s => (reply, s))
          (s.editTarget t (work built))) (s.build v) := by
    unfold Session.editWith
    rcases s.build v with ⟨_ | built, s'⟩
    · rfl
    · dsimp only [obtained]
      rcases s'.editTarget t (work built) with ⟨_ | _ | _, _⟩ <;> rfl
  simp only [through]
  apply acts_obtained (V.acts_build v s)
  intro built s
  apply acts_reached (acts_editTarget (edits built) s t)
  · intro s
    exact follows_map (V.carries_releaseValue built s.machine) fun _ _ ended =>
      congrArg (V.session s) ended
  · exact fun _ _ => follows_here fun _ => rfl

theorem edits_editing {shown : Except Error α → Reply} {shown' : Except Error β → Reply}
    {work : Value → Machine → Outcome Error Value α}
    {work' : Value → Machine → Outcome Error Value β}
    (each : ∀ v m, V.Performs f V.value m (work v m) (work' (V.value v)))
    (shows : ∀ result, V.reply (shown result) = shown' (result.map f)) :
    V.Edits V.reply (Session.editing shown work) (Session.editing shown' work') := by
  intro v m
  apply follows_map (each v m)
  intro n n' ended
  simp only [Session.editing, ended, shows]

theorem reply_ofUnit (V : Veil) (result : Except Error α) (f : α → β) :
    V.reply (.ofUnit result) = .ofUnit (result.map f) := by
  cases result <;> rfl

theorem reply_ofWork (V : Veil) (result : Except Error (Except AllocationError Unit)) :
    V.reply (.ofWork result) = .ofWork (result.map (Except.map id)) := by
  rcases result with _ | _ | _ <;> rfl

theorem reply_ofWriting (V : Veil) (result : Except Error (Except AllocationError Unit)) :
    V.reply (.ofWriting result) = .ofWriting (result.map (Except.map id)) := by
  rcases result with _ | _ | _ <;> rfl

theorem reply_ofPushing (V : Veil)
    (result : Except Error (Except AllocationError (Nat × Option AllocationError))) :
    V.reply (.ofPushing result) = .ofPushing (result.map (Except.map id)) := by
  rcases result with _ | _ | _ <;> rfl

theorem edits_editingText {work : TextBuffer → Machine → Outcome AllocationError TextBuffer Unit}
    (each : ∀ b m, V.Performs id V.text m (work b m) (work (V.text b))) :
    V.Edits V.reply (Session.editingText work) (Session.editingText work) :=
  edits_editing (performs_onText each) V.reply_ofWork

theorem edits_changingText {change : TextBuffer → TextBuffer}
    (commutes : ∀ b, V.text (change b) = change (V.text b)) :
    V.Edits V.reply (Session.changingText change) (Session.changingText change) := by
  apply edits_editingText
  intro b m
  apply follows_here
  intro n
  rw [commutes]
  rfl

theorem edits_filling (V : Veil) (atFront : Bool) (times : Nat) (start : Int64) :
    V.Edits V.reply (Session.filling atFront times start)
      (Session.filling atFront times start) := by
  intro v m
  apply follows_map (V.edits_fill atFront times start 0 v m)
  intro n n' ended
  rw [Session.filling, ended]
  rfl

theorem edits_popping {pop : Value → Machine → Outcome Error Value (Option Value)}
    (each : ∀ v m, V.Performs (Option.map V.value) V.value m (pop v m) (pop (V.value v))) :
    V.Edits V.reply (Session.popping pop) (Session.popping pop) := by
  intro v m
  have popped := each v m
  unfold Performs at popped
  simp only [Session.popping]
  generalize pop v m = o at *
  obtain ⟨result, target, m'⟩ := o
  rcases result with e | _ | element
  · apply follows_map popped
    intro n n' ended
    simp only [Session.popping, ended]
    rfl
  · apply follows_map popped
    intro n n' ended
    simp only [Session.popping, ended]
    rfl
  · have released := V.carries_releaseValue element
    apply follows_then popped (follows_last released)
    intro n n' ended
    simp only [Session.popping, ended]
    rfl

def handed : Option String → Except Error Value → Session → Reply × Session
  | _, .error e, s => (.failed (.value e), s)
  | some name, .ok element, s => (.found (some element), s.rebind name element)
  | none, .ok element, s => (.found (some element), s.on (element.release s.machine))

theorem acts_remove (V : Veil) (s : Session) (t : Target) (position : Nat) (keep : Option String) :
    V.Acts V.reply s (s.remove t position keep) fun n =>
      (V.session s n).remove t position keep := by
  have removes (s : Session) : s.remove t position keep =
      reached id (handed keep) (s.editTarget t fun v m =>
        ((v.remove position m).result, (v.remove position m).target,
          (v.remove position m).machine)) := by
    unfold Session.remove
    dsimp only
    generalize s.editTarget t _ = answer
    rcases answer with ⟨_ | _ | _ | _, _⟩ <;> cases keep <;> rfl
  have edits : V.Edits (Except.map V.value)
      (fun v m => ((v.remove position m).result, (v.remove position m).target,
        (v.remove position m).machine))
      fun v m => ((v.remove position m).result, (v.remove position m).target,
        (v.remove position m).machine) := by
    intro v m
    apply follows_map (V.performs_remove v position m)
    intro n n' ended
    simp only [ended]
  simp only [removes]
  apply acts_reached (acts_editTarget edits s t) V.follows_untouched
  intro removed s
  cases removed with
  | error e => exact follows_here fun _ => rfl
  | ok element =>
    cases keep with
    | none =>
      exact follows_map (V.carries_releaseValue element s.machine) fun n n' ended =>
        congrArg (fun n => (Reply.found (some (V.value element)), V.session s n)) ended
    | some name =>
      exact follows_map (V.follows_rebind s name element) fun n n' ended =>
        congrArg (Prod.mk _) ended

theorem acts_set (V : Veil) (s : Session) (destination : String) (v : Literal) :
    V.Acts V.reply s (s.set destination v) fun n => (V.session s n).set destination v := by
  have sets (s : Session) : s.set destination v =
      obtained (fun built s => (.done, s.rebind destination built)) (s.build v) := by
    unfold Session.set
    rcases s.build v with ⟨_ | _, _⟩ <;> rfl
  simp only [sets]
  apply acts_obtained (V.acts_build v s)
  intro built s
  apply follows_map (V.follows_rebind s destination built)
  intro n n' ended
  exact congrArg (Prod.mk Reply.done) ended

theorem acts_destroy (V : Veil) (s : Session) (register : String) :
    V.Acts V.reply s (s.destroy register) fun n => (V.session s n).destroy register := by
  unfold Acts Session.destroy
  simp only [register_session, Option.isSome_map]
  split
  · exact follows_map (V.follows_drop s register) fun n n' ended => congrArg (Prod.mk _) ended
  · exact follows_here fun _ => rfl

theorem acts_nest (V : Veil) (s : Session) (register : String) (levels k : Nat) :
    V.Acts V.reply s (s.nest register levels k) fun n =>
      (V.session s n).nest register levels k := by
  have nests (s : Session) : s.nest register levels k =
      obtained (fun v s =>
        kept (·.bind register) s (v.nest (s.allocator k) levels s.machine))
        (s.take register) := by
    unfold Session.nest
    rcases s.take register with ⟨_ | v, s'⟩
    · rfl
    · dsimp only [obtained]
      rcases v.nest (s'.allocator k) levels s'.machine with ⟨_ | _, _⟩ <;> rfl
  simp only [nests]
  apply acts_obtained (V.acts_take s register)
  intro v s
  have nested := V.answers_nest (s.allocator k) levels v s.machine
  simp only [allocator_session, machine_session]
  apply acts_kept nested
  intro s v
  apply follows_here
  intro n
  exact V.bind_session s n register v

def drained (script : List Pull) (v : Value) (s : Session) : Reply × Session :=
  match v.asList s.machine with
  | (.error e, m) => (.failed (.value e), s.on (v.release m))
  | (.ok l, m) =>
    let seen := (Drain.mk l).pulls script m
    (.ofAnswer .sightings seen.1, s.on seen.2)

theorem acts_consume (V : Veil) (s : Session) (register : String) (script : List Pull) :
    V.Acts V.reply s (s.consume register script) fun n =>
      (V.session s n).consume register script := by
  have consumes (s : Session) :
      s.consume register script = obtained (drained script) (s.take register) := by
    unfold Session.consume
    rcases s.take register with ⟨_ | _, _⟩ <;> rfl
  simp only [consumes]
  apply acts_obtained (V.acts_take s register)
  intro v s
  have access : V.Answers (Except.map V.list) s.machine (v.asList s.machine) (V.value v).asList :=
    V.answers_access .list v s.machine
  unfold Acts drained
  unfold Answers at access
  generalize v.asList s.machine = answer at *
  obtain ⟨result, m⟩ := answer
  cases result with
  | error e =>
    have released := V.carries_releaseValue v
    apply follows_then access (follows_last released)
    intro n n' ended
    rw [machine_session, ended]
    rfl
  | ok l =>
    have pulled := V.answers_pulls script ⟨l⟩ m
    apply follows_both access pulled
    intro n n' n'' ended ended'
    rw [machine_session, ended]
    simp only [Except.map, ended']
    cases ((Drain.mk l).pulls script m).1 <;> rfl

theorem acts_perform (V : Veil) (s : Session) (command : Command) (scope : command.OnValues) :
    V.Acts V.reply s (s.perform command) fun n => (V.session s n).perform command := by
  cases command with
  | set destination v => exact V.acts_set s destination v
  | emptyList destination k =>
    apply follows_map (V.follows_rebind s destination (.emptyList (s.allocator k)))
    intro n n' ended
    rw [value_emptyList, ← allocator_session V s n k] at ended
    exact congrArg (Prod.mk Reply.done) ended
  | assign t v =>
    refine acts_editWith (fun built => ?_) s t v
    exact edits_editing (fun v m => V.performs_overwrite v built m) fun _ => V.reply_ofUnit _ id
  | destroy register => exact V.acts_destroy s register
  | clone t destination => exact V.acts_clone s t destination
  | inspect t =>
    unfold Session.perform
    exact acts_look V.answers_inspection s t
  | forms t =>
    unfold Session.perform
    exact acts_look V.answers_forms s t
  | compare t other => exact V.acts_compare s t other
  | asInteger t => exact acts_look (answers_viewing (V.answers_access .integer) fun _ => rfl) s t
  | asReal t => exact acts_look (answers_viewing (V.answers_access .real) fun _ => rfl) s t
  | asBoolean t => exact acts_look (answers_viewing (V.answers_access .boolean) fun _ => rfl) s t
  | nest register levels k => exact V.acts_nest s register levels k
  | append t bytes =>
    exact acts_edit (edits_editingText fun b m => V.performs_append b bytes m) s t
  | write t pieces =>
    refine acts_edit (edits_editing ?_ V.reply_ofWriting) s t
    exact performs_onText fun b m => V.performs_appendAll b pieces m
  | pushByte t byte times =>
    refine acts_edit (edits_editing ?_ V.reply_ofPushing) s t
    exact performs_onText fun b m => V.performs_pushTimes b byte times 0 m
  | reserve t additional =>
    exact acts_edit (edits_editingText fun b m => V.performs_reserve b additional m) s t
  | truncate t len => exact acts_edit (edits_changingText fun b => V.text_truncate b len) s t
  | clearText t => exact acts_edit (edits_changingText V.text_clear) s t
  | withPolicy t policy =>
    exact acts_edit (edits_changingText fun b => V.text_withPolicy b policy) s t
  | textState t =>
    unfold Session.perform
    exact acts_look V.answers_textState s t
  | pushBack t v =>
    refine acts_editWith (fun built => ?_) s t v
    exact edits_editing (fun v m => V.performs_pushBack v built m) fun _ => V.reply_ofUnit _ id
  | pushFront t v =>
    refine acts_editWith (fun built => ?_) s t v
    exact edits_editing (fun v m => V.performs_pushFront v built m) fun _ => V.reply_ofUnit _ id
  | fill t times start atFront => exact acts_edit (V.edits_filling atFront times start) s t
  | popFront t => exact acts_edit (edits_popping V.performs_popFront) s t
  | popBack t => exact acts_edit (edits_popping V.performs_popBack) s t
  | remove t position keep => exact V.acts_remove s t position keep
  | get t position => exact acts_look (V.answers_get position) s t
  | listState t => exact acts_look (answers_viewingList V.answers_state fun _ => rfl) s t
  | clearList t =>
    refine acts_edit (edits_editing ?_ fun _ => V.reply_ofUnit _ id) s t
    exact performs_onList fun l m => V.performs_clear l m
  | iterate t script => exact acts_look (V.answers_iterate script) s t
  | consume register script => exact V.acts_consume s register script
  | setLimit _ _ => exact scope.elim
  | setRoom _ _ => exact scope.elim
  | describe _ => exact scope.elim
  | allocate _ _ _ => exact scope.elim
  | resize _ _ _ => exact scope.elim
  | deallocate _ => exact scope.elim

end Veil
end TrackedValues
