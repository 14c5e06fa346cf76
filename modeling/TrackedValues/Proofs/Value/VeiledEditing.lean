import TrackedValues.Proofs.Value.Veil
import TrackedValues.Value.Editing

/-!
Typed access and editing behind a veil. The shape of a value is seen there, so the same accesses
are mismatches; what an edit does behind the veil it does from any depth of a tree.
-/
namespace TrackedValues.Veil
variable {α β ε : Type} {V : Veil} {m : Machine} {f : α → β}

def payload (V : Veil) : (s : Shape) → s.Payload → s.Payload
  | .integer, n => n
  | .real, x => x
  | .string, b => V.text b
  | .boolean, b => b
  | .list, l => V.list l

theorem payload?_value (V : Veil) (s : Shape) (v : Value) :
    (V.value v).payload? s = (v.payload? s).map (V.payload s) := by
  cases v with
  | list l =>
    rw [value_list]
    cases s <;> rfl
  | _ => cases s <;> rfl

theorem answers_access (V : Veil) (expected : Shape) (v : Value) (m : Machine) :
    V.Answers (Except.map (V.payload expected)) m (v.access expected m)
      ((V.value v).access expected) := by
  have seen := V.payload?_value expected v
  unfold Answers Value.access
  cases found : v.payload? expected with
  | some p =>
    rw [found] at seen
    simp only [seen, Option.map_some]
    exact follows_here fun _ => rfl
  | none =>
    rw [found] at seen
    simp only [seen, Option.map_none, Value.mismatch, shape_value]
    exact V.follows_emit m _ fun _ => rfl

theorem performs_refused (V : Veil) (f : α → β) (v : Value) (expected : Shape) (m : Machine) :
    V.Performs f V.value m (v.refused expected m) ((V.value v).refused expected) := by
  refine V.follows_emit m _ fun n => ?_
  rw [Value.refused, Value.mismatch, shape_value]
  rfl

theorem performs_onText {work : TextBuffer → Machine → Outcome ε TextBuffer α}
    {work' : TextBuffer → Machine → Outcome ε TextBuffer β}
    (each : ∀ b m, V.Performs f V.text m (work b m) (work' (V.text b))) (v : Value) (m : Machine) :
    V.Performs (Except.map f) V.value m (v.onText m work) fun n => (V.value v).onText n work' := by
  cases v with
  | text b =>
    apply follows_map (each b m)
    intro n n' ended
    rw [value, Value.fold, veiling, Value.onText, ended]
    rfl
  | list l =>
    have refused :=
      V.performs_refused (Except.map f : Except ε α → Except ε β) (.list l) .string m
    rw [value_list] at refused ⊢
    exact refused
  | _ => exact V.performs_refused (Except.map f) _ .string m

theorem performs_onList {work : ValueList → Machine → Outcome Error ValueList α}
    {work' : ValueList → Machine → Outcome Error ValueList β}
    (each : ∀ l m, V.Performs f V.list m (work l m) (work' (V.list l))) (v : Value) (m : Machine) :
    V.Performs f V.value m (v.onList m work) fun n => (V.value v).onList n work' := by
  cases v with
  | list l =>
    apply follows_map (each l m)
    intro n n' ended
    rw [value_list, Value.onList, ended]
    simp only [Value.onList, Outcome.within, value_list]
  | _ => exact V.performs_refused f _ .list m

theorem performs_refusedPush (V : Veil) (v element : Value) (m : Machine) :
    V.Performs id V.value m
      ({ (v.refused .list m : Outcome Error Value Unit) with
        machine := element.release (v.refused .list m : Outcome Error Value Unit).machine })
      fun n => { ((V.value v).refused .list n : Outcome Error Value Unit) with
        machine := (V.value element).release
          ((V.value v).refused .list n : Outcome Error Value Unit).machine } := by
  have released := V.carries_releaseValue element
  apply follows_then (V.performs_refused id v .list m) (follows_last released)
  intro n n' ended
  rw [ended]

theorem performs_pushWithValue {push : ValueList → Value → Machine → Outcome Error ValueList Unit}
    {element : Value} {m : Machine} (commutes : ∀ l, V.Performs id V.list m (push l element m)
      (push (V.list l) (V.value element))) (v : Value) :
    V.Performs id V.value m (Value.pushWith push v element m)
      (Value.pushWith push (V.value v) (V.value element)) := by
  cases v with
  | list l =>
    apply follows_map (commutes l)
    intro n n' ended
    rw [value_list, Value.pushWith, ended]
    simp only [Value.pushWith, Outcome.within, value_list]
  | _ => exact V.performs_refusedPush _ element m

theorem performs_pushBack (V : Veil) (v element : Value) (m : Machine) :
    V.Performs id V.value m (v.pushBack element m) ((V.value v).pushBack (V.value element)) :=
  performs_pushWithValue (fun l => V.performs_pushBackList l element m) v

theorem performs_pushFront (V : Veil) (v element : Value) (m : Machine) :
    V.Performs id V.value m (v.pushFront element m) ((V.value v).pushFront (V.value element)) :=
  performs_pushWithValue (fun l => V.performs_pushFrontList l element m) v

theorem performs_remove (V : Veil) (v : Value) (position : Nat) (m : Machine) :
    V.Performs V.value V.value m (v.remove position m) ((V.value v).remove position) := by
  apply performs_onList
  intro l m
  exact V.performs_removeList l position m

theorem performs_popWith {pop : ValueList → Except Error (Option Value) × ValueList}
    (commutes : ∀ l, pop (V.list l) = ((pop l).1.map (Option.map V.value), V.list (pop l).2))
    (v : Value) (m : Machine) :
    V.Performs (Option.map V.value) V.value m (Value.popWith pop v m)
      (Value.popWith pop (V.value v)) := by
  apply performs_onList
  intro l m
  apply follows_here
  intro n
  rw [commutes]

theorem performs_popFront (V : Veil) (v : Value) (m : Machine) :
    V.Performs (Option.map V.value) V.value m (v.popFront m) (V.value v).popFront :=
  performs_popWith (fun l => l.popFront_recast) v m

theorem performs_popBack (V : Veil) (v : Value) (m : Machine) :
    V.Performs (Option.map V.value) V.value m (v.popBack m) (V.value v).popBack :=
  performs_popWith (fun l => l.popBack_recast) v m

theorem performs_overwrite (V : Veil) (v replacement : Value) (m : Machine) :
    V.Performs id V.value m (v.overwrite replacement m)
      ((V.value v).overwrite (V.value replacement)) :=
  follows_last (V.carries_releaseValue v)

theorem answers_find (V : Veil) (v : Value) (path : List Nat) (m : Machine) :
    V.Answers (Except.map (Option.map V.value)) m (v.find path m) ((V.value v).find path) := by
  induction path generalizing v m with
  | nil => exact follows_here fun n => by rw [Value.find, Value.find]; rfl
  | cons position path ih =>
    cases v with
    | list l =>
      have found : (V.list l).get position = (l.get position).map (Option.map V.value) :=
        l.get_recast position
      rw [value_list]
      cases here : l.get position with
      | error e =>
        simp only [Value.find, Value.asList_list, found, here]
        exact follows_here fun _ => rfl
      | ok element =>
        cases element with
        | none =>
          simp only [Value.find, Value.asList_list, found, here]
          exact follows_here fun _ => rfl
        | some element =>
          simp only [Value.find, Value.asList_list, found, here]
          exact ih element m
    | _ => exact V.follows_emit m _ fun _ => rfl

/-- An edit and its counterpart behind the veil; answers are seen through `f`. -/
def Edits (V : Veil) (f : α → β) (edit : Value.Edit α) (edit' : Value.Edit β) : Prop :=
  ∀ v m, V.Follows m (edit v m).2.2 (edit' (V.value v)) fun n =>
    (f (edit v m).1, V.value (edit v m).2.1, n)

theorem performs_editAt {edit : Value.Edit α} {edit' : Value.Edit β} (edits : V.Edits f edit edit')
    (path : List Nat) (v : Value) (m : Machine) :
    V.Performs (Option.map f) V.value m (Value.editAt edit path v m)
      (Value.editAt edit' path (V.value v)) := by
  induction path generalizing v m with
  | nil =>
    apply follows_map (edits v m)
    intro n n' ended
    rw [Value.editAt, ended]
    rfl
  | cons position path ih =>
    cases v with
    | list l =>
      have place : (V.list l).slotAt position = l.slotAt position := l.slotAt_recast position
      have element (i : Nat) : (V.list l).valueAt i = (l.valueAt i).map V.value :=
        l.valueAt_recast i
      rw [value_list]
      cases found : l.slotAt position with
      | error e =>
        simp only [Value.editAt, found]
        refine follows_here fun n => ?_
        simp only [place, found, value_list]
        rfl
      | ok slot =>
        cases slot with
        | none =>
          simp only [Value.editAt, found]
          refine follows_here fun n => ?_
          simp only [place, found, value_list]
          rfl
        | some i =>
          cases here : l.valueAt i with
          | error e =>
            simp only [Value.editAt, found, here]
            refine follows_here fun n => ?_
            simp only [place, found, element, here, value_list]
            rfl
          | ok x =>
            simp only [Value.editAt, found, here]
            apply follows_map (ih x m)
            intro n n' ended
            have inserted (edited : Value) :
                V.list ((l.setValue i (.boolean false)).setValue i edited) =
                  ((V.list l).setValue i (.boolean false)).setValue i (V.value edited) := by
              rw [SlotList.setValue_setValue, SlotList.setValue_setValue]
              exact l.recast_setValue i edited
            simp only [place, found, element, here, Except.map, ended, Outcome.within, value_list,
              inserted]
    | _ => exact V.performs_refused (Option.map f) _ .list m

theorem edits_fill (V : Veil) (atFront : Bool) (times : Nat) (start : Int64) (count : Nat) :
    V.Edits id (Value.fill atFront times start count) (Value.fill atFront times start count) := by
  induction times generalizing start count with
  | zero => exact fun v m => follows_here fun _ => rfl
  | succ times ih =>
    intro v m
    have pushed : V.Performs id V.value m
        (if atFront then v.pushFront (.integer start) m else v.pushBack (.integer start) m)
        fun n => if atFront then (V.value v).pushFront (.integer start) n
          else (V.value v).pushBack (.integer start) n := by
      cases atFront with
      | true => exact V.performs_pushFront v (.integer start) m
      | false => exact V.performs_pushBack v (.integer start) m
    unfold Value.fill
    dsimp only
    generalize (if atFront then v.pushFront (.integer start) m
      else v.pushBack (.integer start) m) = o at *
    obtain ⟨result, target, m'⟩ := o
    cases result with
    | ok _ =>
      apply follows_then pushed (ih (start + 1) (count + 1) target m')
      intro n n' ended
      rw [Value.fill, ended]
      rfl
    | error e =>
      apply follows_map pushed
      intro n n' ended
      rw [Value.fill, ended]
      rfl

theorem answers_nest (V : Veil) (a : Allocator) (levels : Nat) (v : Value) (m : Machine) :
    V.Answers (Except.map V.value) m (v.nest a levels m)
      ((V.value v).nest (V.handle a) levels) := by
  induction levels generalizing v m with
  | zero => exact follows_here fun _ => rfl
  | succ levels ih =>
    have pushed := V.performs_pushBack (.emptyList a) v m
    rw [value_emptyList] at pushed
    unfold Answers
    rw [Value.nest]
    generalize (Value.emptyList a).pushBack v m = o at *
    obtain ⟨result, target, m'⟩ := o
    cases result with
    | ok _ =>
      apply follows_then pushed (ih target m')
      intro n n' ended
      rw [Value.nest, ended]
      rfl
    | error e =>
      have released := V.carries_releaseValue target
      apply follows_then pushed (follows_last released)
      intro n n' ended
      rw [Value.nest, ended]
      rfl

end TrackedValues.Veil
