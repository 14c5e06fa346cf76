import TrackedValues.Proofs.Value.VeiledEditing
import TrackedValues.Session.Command

/-!
What can be asked about a value, behind a veil. Written forms and comparisons are the same there;
what is shown of texts and lists is the same but for allocators and counters.
-/
namespace TrackedValues.Veil
variable {V : Veil} {m m' n : Machine}

def inspection (V : Veil) (i : Inspection) : Inspection :=
  ⟨V.value i.value, i.integer, i.real, i.boolean, i.text.map V.text, i.list.map V.list⟩

def listState (V : Veil) (l : ListState) : ListState where
  len := l.len
  isEmpty := l.isEmpty
  front := l.front.map V.value
  back := l.back.map V.value
  forwards := l.forwards.map V.value
  backwards := l.backwards.map V.value
  stats := V.counters l.stats

def sighting (V : Veil) : Sighting → Sighting
  | .found v => .found (v.map V.value)
  | .size n => .size n
  | .values vs => .values (vs.map V.value)

def reply (V : Veil) : Reply → Reply
  | .found v => .found (v.map V.value)
  | .inspection i => .inspection (V.inspection i)
  | .textState b stats => .textState (V.text b) (V.counters stats)
  | .listState l => .listState (V.listState l)
  | .sightings s => .sightings (s.map V.sighting)
  | other => other

theorem reply_limits (r : Reply) : limits.reply r = r := by
  have value : limits.value = id := funext value_limits
  have list : limits.list = id := funext fun l => l.map_self fun v _ => value_limits v
  have text : limits.text = id := funext fun _ => rfl
  have sighting : limits.sighting = id := by
    funext s
    cases s with
    | found v => simp only [Veil.sighting, value, Option.map_id, id]
    | size n => rfl
    | values vs => simp only [Veil.sighting, value, List.map_id, id]
  cases r with
  | found v => simp only [reply, value, Option.map_id, id]
  | inspection i => simp only [reply, inspection, value, text, list, Except.map_id, id]
  | textState b stats => rfl
  | listState l => simp only [reply, listState, value, counters, Option.map_id, List.map_id, id]
  | sightings s => simp only [reply, sighting, List.map_id]
  | _ => rfl

theorem contents_list (V : Veil) (l : ValueList) :
    ValueList.contents (V.list l) = ValueList.contents l := by
  have elements : (V.list l).elements = l.elements.map V.value := l.elements_recast
  rw [ValueList.contents, ValueList.contents, SlotList.elements_map, SlotList.elements_map,
    elements, List.map_map]
  exact List.map_congr_left fun v _ => V.content_value v

theorem forms_value (V : Veil) (v : Value) : (V.value v).forms = v.forms := by
  have display : (V.value v).display = v.display := congrArg Content.display (V.content_value v)
  have debug : (V.value v).debug = v.debug := congrArg Content.debug (V.content_value v)
  unfold Value.forms
  rw [display, debug]
  cases v with
  | list l =>
    rw [value_list]
    dsimp only
    rw [ValueList.debug, ValueList.debug, ValueList.debugSpread, ValueList.debugSpread,
      contents_list]
  | _ => rfl

theorem equals_list (V : Veil) (l k : ValueList) :
    ValueList.equals (V.list l) (V.list k) = ValueList.equals l k := by
  unfold ValueList.equals
  rw [contents_list, contents_list]
  rfl

theorem compareWith_value (V : Veil) (v w : Value) :
    (V.value v).compareWith (V.value w) = v.compareWith w := by
  unfold Value.compareWith Value.isAtMost Value.isAtLeast Value.isLess Value.isGreater Value.order?
    Value.equals
  rw [content_value, content_value]
  cases v with
  | text b =>
    cases w with
    | list k => rw [value_list]; rfl
    | _ => rfl
  | list l =>
    rw [value_list]
    cases w with
    | list k =>
      rw [value_list]
      dsimp only
      rw [equals_list]
    | _ => rfl
  | _ => rfl

theorem glance_recast (V : Veil) (c : Cursor Value) (g : Glance) :
    (c.recast V.handle V.value).glance g =
      (c.glance g).map fun seen => (V.sighting seen.1, seen.2.recast V.handle V.value) := by
  cases g with
  | front =>
    simp only [Cursor.glance, Cursor.next_recast]
    cases c.next <;> rfl
  | back =>
    simp only [Cursor.glance, Cursor.nextBack_recast]
    cases c.nextBack <;> rfl
  | size => rfl
  | rest =>
    simp only [Cursor.glance, Cursor.toList_recast]
    cases c.toList <;> rfl
  | restReversed =>
    simp only [Cursor.glance, Cursor.toListBack_recast]
    cases c.toListBack <;> rfl

theorem glances_recast (V : Veil) (script : List Glance) (c : Cursor Value) :
    (c.recast V.handle V.value).glances script = (c.glances script).map (List.map V.sighting) := by
  induction script generalizing c with
  | nil => rfl
  | cons g more ih =>
    simp only [Cursor.glances, glance_recast]
    cases c.glance g with
    | error e => rfl
    | ok seen =>
      have rest := ih seen.2
      simp only [bind, Except.bind, Except.map, rest]
      cases seen.2.glances more <;> rfl

theorem carries_of_answers {α β : Type} {f : α → β} {work : Machine → α × Machine}
    {work' : Machine → β × Machine} (answers : ∀ m, V.Answers f m (work m) work') :
    V.Carries (fun m => (work m).2) fun n => (work' n).2 :=
  fun m => follows_map (answers m) fun _ _ ended => congrArg Prod.snd ended

/-- All accessors are called, and each of them reports its mismatch. -/
theorem answers_inspect (V : Veil) (v : Value) (m : Machine) :
    V.Answers V.inspection m (v.inspect m) (V.value v).inspect := by
  have accesses := carries_trans (carries_of_answers (V.answers_access .integer v))
    (carries_trans (carries_of_answers (V.answers_access .real v))
      (carries_trans (carries_of_answers (V.answers_access .boolean v))
        (carries_trans (carries_of_answers (V.answers_access .string v))
          (carries_of_answers (V.answers_access .list v)))))
  have seen (n : Machine) : ((V.value v).inspect n).1 = V.inspection (v.inspect m).1 := by
    cases v with
    | list l =>
      simp only [value_list, inspection, Value.inspect]
      rfl
    | _ => rfl
  exact follows_map (accesses m) fun n n' ended => Prod.ext (seen n) ended

theorem answers_state (V : Veil) (l : ValueList) (m : Machine) :
    V.Answers (Except.map V.listState) m (ValueList.state l m, m) fun n =>
      (ValueList.state (V.list l) n, n) := by
  refine ⟨List.suffix_refl _, fun _ n hides => ⟨n, hides, ?_⟩⟩
  have front : (V.list l).front = l.front.map (Option.map V.value) := l.front_recast
  have back : (V.list l).back = l.back.map (Option.map V.value) := l.back_recast
  have forwards : (V.list l).cursor.toList = l.cursor.toList.map (List.map V.value) :=
    l.cursor.toList_recast
  have backwards : (V.list l).cursor.toListBack = l.cursor.toListBack.map (List.map V.value) :=
    l.cursor.toListBack_recast
  have stats : n.heap.statsOf (V.list l).allocator = V.counters (m.heap.statsOf l.allocator) :=
    statsOf_hides hides l.allocator
  simp only [ValueList.state, front, back, forwards, backwards, stats]
  cases l.front with
  | error e => rfl
  | ok front =>
    cases l.back with
    | error e => rfl
    | ok back =>
      cases l.cursor.toList with
      | error e => rfl
      | ok forwards => cases l.cursor.toListBack <;> rfl

theorem pull_table (V : Veil) (d : Drain Value) (p : Pull) :
    (Drain.mk (V.list d.list)).pull p =
      ((d.pull p).1.map V.sighting, ⟨V.list (d.pull p).2.list⟩) := by
  cases p with
  | front =>
    have taken : (V.list d.list).popFront =
        (d.list.popFront.1.map (Option.map V.value), V.list d.list.popFront.2) :=
      d.list.popFront_recast
    simp only [Drain.pull, Drain.next, taken]
    cases d.list.popFront.1 <;> rfl
  | back =>
    have taken : (V.list d.list).popBack =
        (d.list.popBack.1.map (Option.map V.value), V.list d.list.popBack.2) :=
      d.list.popBack_recast
    simp only [Drain.pull, Drain.nextBack, taken]
    cases d.list.popBack.1 <;> rfl
  | size => rfl

theorem carries_sighting (V : Veil) (s : Sighting) :
    V.Carries s.release (V.sighting s).release := by
  cases s with
  | found v =>
    cases v with
    | none => exact V.carries_nothing
    | some v => exact V.carries_releaseValue v
  | size n => exact V.carries_nothing
  | values vs => exact V.carries_nothing

theorem answers_pulls (V : Veil) (script : List Pull) (d : Drain Value) (m : Machine) :
    V.Answers (Except.map (List.map V.sighting)) m (d.pulls script m)
      ((Drain.mk (V.list d.list)).pulls script) := by
  induction script generalizing d m with
  | nil => exact follows_last (V.carries_releaseList d.list)
  | cons p more ih =>
    have pulled := V.pull_table d p
    unfold Answers
    rw [Drain.pulls]
    generalize d.pull p = seen at *
    obtain ⟨result, rest⟩ := seen
    cases result with
    | error e =>
      apply follows_map (V.carries_releaseList rest.list m)
      intro n n' ended
      rw [Drain.pulls, pulled]
      exact congrArg (Prod.mk _) ended
    | ok sighting =>
      have released := V.carries_sighting sighting m
      have later := ih rest (sighting.release m)
      unfold Answers at later
      dsimp only
      generalize sighting.release m = m' at *
      generalize rest.pulls more m' = answer at *
      obtain ⟨answer, m''⟩ := answer
      cases answer with
      | ok seen =>
        apply follows_both released later
        intro n n' n'' ended ended'
        rw [Drain.pulls, pulled]
        dsimp only [Except.map]
        rw [ended, id, ended']
        rfl
      | error e =>
        apply follows_both released later
        intro n n' n'' ended ended'
        rw [Drain.pulls, pulled]
        dsimp only [Except.map]
        rw [ended, id, ended']
        rfl

end TrackedValues.Veil
