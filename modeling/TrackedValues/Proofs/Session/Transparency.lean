import TrackedValues.Proofs.Session.VeiledCommands
import TrackedValues.Session.Script

/-!
Tracking is transparent. Scripts that differ in the limits they set, run on any arrangements of
trackers with any limits, report the same as long as nothing is refused; where the handles are the
same, even the counters are.
-/
namespace TrackedValues

def Command.SetsLimit : Command → Prop
  | setLimit _ _ | setRoom _ _ => True
  | _ => False

def Command.limitless : Command → Command
  | setLimit _ _ | setRoom _ _ => setLimit .inner none
  | c => c

def Step.limitless (t : Step) : Step := { t with command := t.command.limitless }

/-- Steps that watch the same register and do the same work on values, or both set a limit. -/
structure Step.Alike (t t' : Step) : Prop where
  watched : t.watched = t'.watched
  command : t.command.OnValues ∧ t.command = t'.command ∨
    t.command.SetsLimit ∧ t'.command.SetsLimit

/-- Nothing was refused in a step, and no table would have been too large. -/
def StepReport.Granted (r : StepReport) : Prop := ∀ e ∈ r.events, ¬e.IsRefusal

instance (r : StepReport) : Decidable r.Granted :=
  inferInstanceAs (Decidable (∀ e ∈ r.events, ¬e.IsRefusal))

namespace Veil
variable {V : Veil} {s : Session} {n : Machine}

def shown : Veil → List Stats → List Stats
  | trackers, _ => []
  | limits, stats => stats

def report (V : Veil) (r : StepReport) : StepReport where
  reply := V.reply r.reply
  register := r.register.map (Option.map V.value)
  stats := V.shown r.stats
  events := r.events

theorem stats_session (hides : V.Hides s.machine n) : (V.session s n).stats = V.shown s.stats := by
  cases V with
  | trackers => rfl
  | limits => exact List.map_congr_left fun t _ => hides.stats rfl t

theorem limitless_onValues {command : Command} (scope : command.OnValues) :
    command.limitless = command := by
  cases command with
  | setLimit _ _ => exact scope.elim
  | setRoom _ _ => exact scope.elim
  | _ => rfl

theorem setsLimit_limitless {command : Command} (limiting : command.SetsLimit) :
    command.limitless = .setLimit .inner none := by
  cases command with
  | setLimit _ _ => rfl
  | setRoom _ _ => rfl
  | _ => exact limiting.elim

/-- Limits are not there behind the veil, so a session with another limit looks the same. -/
theorem session_setLimit (hides : V.Hides s.machine n) (tracker : TrackerName)
    (limit : Option Nat) :
    V.Hides (s.setLimit tracker limit).machine n ∧
      V.session (s.setLimit tracker limit) n = V.session s n := by
  unfold Session.setLimit
  split
  · exact ⟨hides, rfl⟩
  · exact ⟨hides_setLimit hides _ limit, rfl⟩

theorem session_setRoom (hides : V.Hides s.machine n) (tracker : TrackerName) (room : Nat) :
    V.Hides (s.setRoom tracker room).machine n ∧
      V.session (s.setRoom tracker room) n = V.session s n := by
  unfold Session.setRoom
  split
  · exact ⟨hides, rfl⟩
  · exact session_setLimit hides tracker _

theorem perform_setsLimit (s : Session) {command : Command} (limiting : command.SetsLimit)
    (hides : V.Hides s.machine n) :
    V.Hides (s.perform command).2.machine n ∧
      (V.session s n).perform (.setLimit .inner none) =
        (V.reply (s.perform command).1, V.session (s.perform command).2 n) := by
  -- Behind the veil no arrangement has an inner tracker, so this step changes nothing there.
  have nothing : (V.session s n).perform (.setLimit .inner none) = (.done, V.session s n) := by
    cases V <;> rfl
  rw [nothing]
  cases command with
  | setLimit tracker limit =>
    obtain ⟨after, same⟩ := session_setLimit hides tracker limit
    exact ⟨after, congrArg (Prod.mk Reply.done) same.symm⟩
  | setRoom tracker room =>
    obtain ⟨after, same⟩ := session_setRoom hides tracker room
    exact ⟨after, congrArg (Prod.mk Reply.done) same.symm⟩
  | _ => exact limiting.elim

theorem perform_limitless {command : Command} (scope : command.OnValues ∨ command.SetsLimit)
    (granted : s.machine.Unrefused (s.perform command).2.machine) (hides : V.Hides s.machine n) :
    ∃ n', V.Hides (s.perform command).2.machine n' ∧
      (V.session s n).perform command.limitless =
        (V.reply (s.perform command).1, V.session (s.perform command).2 n') := by
  rcases scope with onValues | limiting
  · rw [limitless_onValues onValues]
    exact (V.acts_perform s command onValues).ends granted n hides
  · rw [setsLimit_limitless limiting]
    exact ⟨n, perform_setsLimit s limiting hides⟩

theorem step_limitless {t : Step} (scope : t.command.OnValues ∨ t.command.SetsLimit)
    (granted : (s.step t).1.Granted) (hides : V.Hides s.machine n) :
    ∃ n', V.Hides (s.step t).2.machine n' ∧
      (V.session s n).step t.limitless = (V.report (s.step t).1, V.session (s.step t).2 n') := by
  obtain ⟨n', after, performed⟩ := perform_limitless scope granted hides
  refine ⟨n', after, ?_⟩
  have command : t.limitless.command = t.command.limitless := rfl
  have watched : t.limitless.watched = t.watched := rfl
  have earlier : n.events.length = s.machine.events.length := congrArg List.length hides.events
  have stats := stats_session after
  have events : n'.eventsAfter s.machine.events.length =
      (s.perform t.command).2.machine.eventsAfter s.machine.events.length := by
    rw [Machine.eventsAfter, Machine.eventsAfter, after.events]
  have register : (V.session (s.perform t.command).2 n').register? =
      Option.map V.value ∘ (s.perform t.command).2.register? :=
    funext (register_session V (s.perform t.command).2 n')
  simp only [Session.step, command, watched, machine_session, performed, stats, earlier, events,
    register, report, Option.map_map]

theorem carries_foldl {γ δ : Type} {give : Machine → γ → Machine} {give' : Machine → δ → Machine}
    {seen : γ → δ} (each : ∀ x, V.Carries (give · x) (give' · (seen x))) (xs : List γ) :
    V.Carries (xs.foldl give) ((xs.map seen).foldl give') := by
  induction xs with
  | nil => exact V.carries_nothing
  | cons x more ih => exact carries_trans (each x) ih

theorem follows_finish (V : Veil) (s : Session) :
    V.Follows s.machine s.finish.machine (fun n => (V.session s n).finish)
      (V.session s.finish) := by
  have registers : V.Carries (s.registers.foldl fun m r => r.2.release m)
      ((s.registers.map fun r => (r.1, V.value r.2)).foldl fun m r => r.2.release m) :=
    carries_foldl (fun r => V.carries_releaseValue r.2) s.registers
  have returned (b : String × Block) :
      V.Carries (·.release b.2.allocator b.2.layout.size)
        (·.release (V.block b.2).allocator (V.block b.2).layout.size) :=
    V.carries_release fun _ => rfl
  have blocks : V.Carries (s.blocks.foldl fun m b => m.release b.2.allocator b.2.layout.size)
      ((s.blocks.map fun b => (b.1, V.block b.2)).foldl fun m b =>
        m.release b.2.allocator b.2.layout.size) :=
    carries_foldl returned s.blocks
  apply follows_map (carries_trans registers blocks s.machine)
  intro n n' ended
  exact congrArg (V.session s.finish) ended

/-- Giving back is never refused. -/
theorem foldl_events {γ : Type} {give : Machine → γ → Machine}
    (quiet : ∀ m x, (give m x).events = m.events) (xs : List γ) (m : Machine) :
    (xs.foldl give m).events = m.events := by
  induction xs generalizing m with
  | nil => rfl
  | cons x more ih => exact (ih (give m x)).trans (quiet m x)

theorem finish_events (s : Session) : s.finish.machine.events = s.machine.events := by
  have released (m : Machine) (r : String × Value) : (r.2.release m).events = m.events := by
    rw [Value.release_eq_giveBack]
    apply foldl_events
    exact fun _ _ => rfl
  refine Eq.trans ?_ (foldl_events released s.registers s.machine)
  apply foldl_events
  exact fun _ _ => rfl

theorem run_limitless {steps : List Step}
    (scope : ∀ t ∈ steps, t.command.OnValues ∨ t.command.SetsLimit)
    (granted : ∀ r ∈ (s.run id steps).1, r.Granted) (hides : V.Hides s.machine n) :
    (V.session s n).run id (steps.map Step.limitless) =
      ((s.run id steps).1.map V.report, V.shown (s.run id steps).2) := by
  induction steps generalizing s n with
  | nil =>
    have quiet : s.machine.Unrefused s.finish.machine :=
      (Machine.unrefused_iff (finish_events s)).mpr fun e member => absurd member List.not_mem_nil
    obtain ⟨n', after, finished⟩ := (V.follows_finish s).ends quiet n hides
    have stats := stats_session after
    simp only [List.map_nil, Session.run, finished, stats]
  | cons t more ih =>
    rw [List.forall_mem_cons] at scope
    simp only [Session.run, id, List.forall_mem_cons] at granted
    obtain ⟨n', after, stepped⟩ := step_limitless scope.1 granted.1 hides
    have rest := ih scope.2 granted.2 after
    simp only [List.map_cons, Session.run, id, stepped, rest]

def granting (scratch : Nat → Nat → UInt8) : Base := ⟨fun _ _ => true, scratch⟩

theorem hides_start (V : Veil) (a : Arrangement) (base : Base) :
    V.Hides (Session.start a base).machine
      (Session.start (V.arrangement a) (granting base.scratch)).machine := by
  have fresh (a : Arrangement) (base : Base) (t : TrackerId) :
      ((a.heap base).tracker t).stats = {} := by
    rw [Heap.tracker, Arrangement.heap, List.getD_eq_getElem?_getD, List.getElem?_map]
    cases a.limits[t]? <;> rfl
  have unlimited (t : TrackerId) :
      (((V.arrangement a).heap (granting base.scratch)).tracker t).limit = none := by
    cases V <;> rfl
  constructor
  · rfl
  · rfl
  · rfl
  · exact fun _ _ => rfl
  · exact unlimited
  · exact fun _ t => (fresh _ _ t).trans (fresh _ _ t).symm

theorem run_behind (V : Veil) {a : Arrangement} {base : Base} {steps : List Step}
    (scope : ∀ t ∈ steps, t.command.OnValues ∨ t.command.SetsLimit)
    (granted : ∀ r ∈ ((Session.start a base).run id steps).1, r.Granted) :
    (Session.start (V.arrangement a) (granting base.scratch)).run id (steps.map Step.limitless) =
      (((Session.start a base).run id steps).1.map V.report,
        V.shown ((Session.start a base).run id steps).2) :=
  run_limitless scope granted (hides_start V a base)

theorem report_limits (r : StepReport) : limits.report r = r := by
  have value : limits.value = id := funext value_limits
  simp only [report, reply_limits, value, shown, Option.map_id, id]

end Veil

theorem Step.alike_limitless {t t' : Step} (alike : t.Alike t') : t.limitless = t'.limitless := by
  obtain ⟨watched, command⟩ := alike
  rcases command with ⟨_, same⟩ | ⟨limiting, limiting'⟩
  · rw [limitless, limitless, watched, same]
  · rw [limitless, limitless, watched, Veil.setsLimit_limitless limiting,
      Veil.setsLimit_limitless limiting']

theorem Step.alike_scope {t t' : Step} (alike : t.Alike t') :
    (t.command.OnValues ∨ t.command.SetsLimit) ∧ (t'.command.OnValues ∨ t'.command.SetsLimit) := by
  rcases alike.command with ⟨onValues, same⟩ | ⟨limiting, limiting'⟩
  · exact ⟨.inl onValues, .inl (same ▸ onValues)⟩
  · exact ⟨.inr limiting, .inr limiting'⟩

section
variable {steps steps' : List Step}

theorem steps_limitless (alike : List.Forall₂ Step.Alike steps steps') :
    steps.map Step.limitless = steps'.map Step.limitless := by
  induction alike with
  | nil => rfl
  | cons first _ ih => rw [List.map_cons, List.map_cons, Step.alike_limitless first, ih]

theorem steps_scope (alike : List.Forall₂ Step.Alike steps steps') :
    (∀ t ∈ steps, t.command.OnValues ∨ t.command.SetsLimit) ∧
      ∀ t ∈ steps', t.command.OnValues ∨ t.command.SetsLimit := by
  induction alike with
  | nil => simp
  | cons first _ ih =>
    obtain ⟨head, head'⟩ := Step.alike_scope first
    exact ⟨List.forall_mem_cons.mpr ⟨head, ih.1⟩, List.forall_mem_cons.mpr ⟨head', ih.2⟩⟩

/--
Two runs of alike scripts, on base allocators with the same scratch bytes, neither of them ever
refused. Whatever trackers there are and whatever their limits, the reports show the same replies,
events, contents and capacities. On the same handles the runs do not differ at all.
-/
theorem Session.run_transparent (scratch : Nat → Nat → UInt8)
    (accepts accepts' : Nat → Request → Bool) (a a' : Arrangement)
    (alike : List.Forall₂ Step.Alike steps steps')
    (granted : ∀ r ∈ ((start a ⟨accepts, scratch⟩).run id steps).1, r.Granted)
    (granted' : ∀ r ∈ ((start a' ⟨accepts', scratch⟩).run id steps').1, r.Granted) :
    ((start a ⟨accepts, scratch⟩).run Veil.trackers.report steps).1 =
        ((start a' ⟨accepts', scratch⟩).run Veil.trackers.report steps').1 ∧
      (a.handles = a'.handles → a.shown = a'.shown →
        (start a ⟨accepts, scratch⟩).run id steps =
          (start a' ⟨accepts', scratch⟩).run id steps') := by
  obtain ⟨scope, scope'⟩ := steps_scope alike
  have same := steps_limitless alike
  -- Behind the veil both runs are the same run on one machine, which grants everything.
  constructor
  · have before := Veil.trackers.run_behind scope granted
    have after := Veil.trackers.run_behind scope' granted'
    rw [same] at before
    rw [run_shown, run_shown Veil.trackers.report]
    exact (Prod.mk.inj (before.symm.trans after)).1
  · intro handles shown
    have before := Veil.limits.run_behind scope granted
    have after := Veil.limits.run_behind scope' granted'
    have arranged : Veil.limits.arrangement a = Veil.limits.arrangement a' := by
      simp only [Veil.arrangement, handles, shown]
    have seen : Veil.limits.report = id := funext Veil.report_limits
    rw [same, arranged] at before
    have whole := before.symm.trans after
    simp only [seen, List.map_id, Veil.shown] at whole
    exact whole

end

/-- A text, a list around a copy of it, a limit on the way, and two accesses that fail. -/
def Session.tour (limiting : Command) : List Step :=
  [⟨.set "text" (.text [97, 98, 99] (.grown 4 .doubling) 0), some "text"⟩,
    ⟨.set "list" (.list [.copy "text", .integer 7] 2 1), some "list"⟩,
    ⟨limiting, none⟩,
    ⟨.pushFront ⟨"list", []⟩ (.take "text"), some "list"⟩,
    ⟨.append ⟨"list", [0]⟩ [100, 101], some "list"⟩,
    ⟨.clone ⟨"list", []⟩ "copy", some "copy"⟩,
    ⟨.asInteger ⟨"list", [1]⟩, none⟩,
    ⟨.remove ⟨"copy", []⟩ 3 none, some "copy"⟩,
    ⟨.listState ⟨"copy", []⟩, none⟩]

theorem Session.tour_alike (limiting limiting' : Command) (first : limiting.SetsLimit)
    (second : limiting'.SetsLimit) :
    List.Forall₂ Step.Alike (tour limiting) (tour limiting') := by
  have same (c : Command) (watched : Option String) (onValues : c.OnValues) :
      Step.Alike ⟨c, watched⟩ ⟨c, watched⟩ := ⟨rfl, .inl ⟨onValues, rfl⟩⟩
  have limited : Step.Alike ⟨limiting, none⟩ ⟨limiting', none⟩ := ⟨rfl, .inr ⟨first, second⟩⟩
  exact .cons (same _ _ trivial) (.cons (same _ _ trivial) (.cons limited
    (.cons (same _ _ trivial) (.cons (same _ _ trivial) (.cons (same _ _ trivial)
      (.cons (same _ _ trivial) (.cons (same _ _ trivial) (.cons (same _ _ trivial) .nil))))))))

theorem Session.run_transparent_tour :
    ((start .plain ⟨fun _ _ => true, fun _ _ => 0⟩).run Veil.trackers.report
        (tour (.setLimit .inner none))).1 =
      ((start (.shared [none, some 4000] (some 9000)) ⟨fun _ r => r.size < 2000, fun _ _ => 0⟩).run
        Veil.trackers.report (tour (.setRoom (.numbered 1) 2500))).1 ∧
    (start (.shared [none, none] none) ⟨fun _ _ => true, fun _ _ => 0⟩).run id
        (tour (.setLimit .inner none)) =
      (start (.shared [none, some 4000] (some 9000)) ⟨fun _ r => r.size < 2000, fun _ _ => 0⟩).run
        id (tour (.setRoom (.numbered 1) 2500)) := by
  have alike := tour_alike (.setLimit .inner none) (.setRoom (.numbered 1) 2500) trivial trivial
  constructor
  · refine (run_transparent _ _ _ .plain (.shared [none, some 4000] (some 9000)) alike ?_ ?_).1
    · decide +kernel
    · decide +kernel
  · refine (run_transparent _ _ _ (.shared [none, none] none)
      (.shared [none, some 4000] (some 9000)) alike ?_ ?_).2 ?_ ?_
    · decide +kernel
    · decide +kernel
    · rfl
    · rfl

end TrackedValues
