import TrackedValues.Proofs.Buffer.Veil
import TrackedValues.Proofs.SlotList.Veil
import TrackedValues.Proofs.Value.Copying
import TrackedValues.Value.Basic
import TrackedValues.Value.Editing

/-!
Values behind a veil: the same trees with the allocators that are seen there. Releasing, copying
and editing do the same to a value in front of a veil and behind it, at any depth.
-/
namespace TrackedValues.Veil
variable {α β ε : Type} {V : Veil} {m m' : Machine}

def veiling (V : Veil) : Value.Cases Value where
  integer := .integer
  real := .real
  text b := .text (V.text b)
  boolean := .boolean
  list l := .list { l with allocator := V.handle l.allocator }

def value (V : Veil) (v : Value) : Value := v.fold V.veiling

def list (V : Veil) (l : ValueList) : ValueList := V.table V.value l

theorem value_list (V : Veil) (l : ValueList) : V.value (.list l) = .list (V.list l) :=
  Value.fold_list V.veiling l

theorem shape_value (V : Veil) (v : Value) : (V.value v).shape = v.shape := by
  cases v with
  | list l => rw [value_list]; rfl
  | _ => rfl

theorem value_emptyList (V : Veil) (a : Allocator) :
    V.value (.emptyList a) = .emptyList (V.handle a) := by
  rw [Value.emptyList, value_list, list, table_empty]
  rfl

theorem content_value (V : Veil) (v : Value) : (V.value v).content = v.content := by
  have elements (l : ValueList) : (V.list l).elements = l.elements.map V.value := l.elements_recast
  induction v using Value.induct_stored with
  | integer n => rfl
  | real x => rfl
  | text b => rfl
  | boolean b => rfl
  | list l each =>
    have same : ∀ x ∈ l.elements, (V.value x).content = x.content :=
      fun x member => each x (SlotList.mem_stored member)
    rw [value_list, Value.content_list, Value.content_list, elements, List.map_map]
    exact congrArg Content.list (List.map_congr_left same)

theorem value_limits (v : Value) : limits.value v = v := by
  induction v using Value.induct_stored with
  | integer n => rfl
  | real x => rfl
  | text b => rfl
  | boolean b => rfl
  | list l each =>
    have same : limits.list l = l := l.map_self each
    rw [value_list, same]

theorem carries_all {vs : List Value} (each : ∀ v ∈ vs, V.Carries v.release (V.value v).release) :
    V.Carries (fun m => (vs.map Value.release).foldl (fun m release => release m) m)
      fun m => ((vs.map V.value).map Value.release).foldl (fun m release => release m) m := by
  induction vs with
  | nil => exact V.carries_nothing
  | cons v vs ih =>
    rw [List.forall_mem_cons] at each
    exact carries_trans each.1 (ih each.2)

theorem carries_releaseElements {l : ValueList}
    (each : ∀ v ∈ l.stored, V.Carries v.release (V.value v).release) :
    V.Carries (ValueList.releaseElements l) (ValueList.releaseElements (V.list l)) := by
  have stored (k : ValueList) : ValueList.releaseElements k =
      fun m => (k.stored.map Value.release).foldl (fun m release => release m) m := by
    funext m
    rw [← SlotList.stored_map]
    rfl
  have same : (V.list l).stored = l.stored.map V.value := l.stored_recast
  rw [stored, stored, same]
  exact carries_all each

theorem carries_releaseValue (V : Veil) (v : Value) :
    V.Carries v.release (V.value v).release := by
  induction v using Value.induct_stored with
  | integer n => exact V.carries_nothing
  | real x => exact V.carries_nothing
  | text b => exact V.carries_releaseText b
  | boolean b => exact V.carries_nothing
  | list l each =>
    rw [value_list, Value.release_list, Value.release_list]
    exact carries_trans (carries_releaseElements each) (V.carries_releaseTable V.value l)

theorem carries_releaseList (V : Veil) (l : ValueList) :
    V.Carries (ValueList.release l) (ValueList.release (V.list l)) := by
  have released := V.carries_releaseValue (.list l)
  rwa [value_list, Value.release_list, Value.release_list] at released

theorem performs_keepOrRelease {o : Outcome Error ValueList Unit}
    {work : Machine → Outcome Error ValueList Unit} (pushed : V.Performs id V.list m o work)
    (element : Value) :
    V.Performs id V.list m (ValueList.keepOrRelease element o) fun n =>
      ValueList.keepOrRelease (V.value element) (work n) := by
  obtain ⟨result, target, m'⟩ := o
  cases result with
  | ok _ =>
    apply follows_map pushed
    intro n n' ended
    rw [ended]
    rfl
  | error e =>
    have released := V.carries_releaseValue element
    apply follows_then pushed (follows_last released)
    intro n n' ended
    rw [ended]
    rfl

theorem performs_pushBackList (V : Veil) (l : ValueList) (element : Value) (m : Machine) :
    V.Performs id V.list m (ValueList.pushBack l element m)
      (ValueList.pushBack (V.list l) (V.value element)) :=
  performs_keepOrRelease (V.performs_pushBackSlot V.value l element m) element

theorem performs_pushFrontList (V : Veil) (l : ValueList) (element : Value) (m : Machine) :
    V.Performs id V.list m (ValueList.pushFront l element m)
      (ValueList.pushFront (V.list l) (V.value element)) :=
  performs_keepOrRelease (V.performs_pushFrontSlot V.value l element m) element

theorem performs_clear (V : Veil) (l : ValueList) (m : Machine) :
    V.Performs id V.list m (ValueList.clear l m) (ValueList.clear (V.list l)) := by
  have released := carries_releaseElements fun v (_ : v ∈ l.stored) => V.carries_releaseValue v
  apply follows_map (released m)
  intro n n' ended
  have cleared : V.list (SlotList.clear l) = SlotList.clear (V.list l) := l.recast_clear
  rw [ValueList.clear, ended, ValueList.clear, cleared]
  rfl

theorem performs_removeList (V : Veil) (l : ValueList) (position : Nat) (m : Machine) :
    V.Performs V.value V.list m (SlotList.remove l position m)
      (SlotList.remove (V.list l) position) := by
  have place : (V.list l).slotAt position = l.slotAt position := l.slotAt_recast position
  have taken (i : Nat) :
      (V.list l).unlink i = ((l.unlink i).1.map V.value, V.list (l.unlink i).2) :=
    l.unlink_recast i
  unfold SlotList.remove
  rw [place]
  cases l.slotAt position with
  | error e => exact follows_here fun _ => rfl
  | ok found =>
    cases found with
    | none => exact follows_here fun _ => rfl
    | some i =>
      dsimp only
      rw [taken]
      generalize l.unlink i = answer
      obtain ⟨result, rest⟩ := answer
      cases result with
      | error e => exact follows_here fun _ => rfl
      | ok element => exact V.follows_emit m (.removed position rest.len) fun _ => rfl

def Makes (V : Veil) (work work' : Copying) : Prop :=
  ∀ m, V.Answers (Except.map V.value) m (work m) work'

theorem answers_pushCopies {copyings copyings' : List Copying}
    (each : List.Forall₂ V.Makes copyings copyings') (copy : ValueList) (m : Machine) :
    V.Answers (Except.map V.list) m (ValueList.pushCopies copy copyings m)
      (ValueList.pushCopies (V.list copy) copyings') := by
  induction each generalizing copy m with
  | nil => exact follows_here fun _ => rfl
  | @cons copying copying' more more' first _ ih =>
    have first := first m
    unfold Answers at first ⊢
    rw [ValueList.pushCopies]
    generalize copying m = answer at *
    obtain ⟨result, m'⟩ := answer
    cases result with
    | error e =>
      have released := V.carries_releaseList copy
      apply follows_then first (follows_last released)
      intro n n' ended
      rw [ValueList.pushCopies, ended]
      rfl
    | ok element =>
      have pushed := V.performs_pushBackList copy element m'
      dsimp only
      generalize ValueList.pushBack copy element m' = o at *
      obtain ⟨result, longer, m''⟩ := o
      cases result with
      | ok _ =>
        apply follows_then_then first pushed (ih longer m'')
        intro n n' n'' ended ended'
        rw [ValueList.pushCopies, ended]
        dsimp only [Except.map]
        rw [ended']
        rfl
      | error e =>
        have released := V.carries_releaseList longer
        apply follows_then_then first pushed (follows_last released)
        intro n n' n'' ended ended'
        rw [ValueList.pushCopies, ended]
        dsimp only [Except.map]
        rw [ended']
        rfl

theorem answers_copyWith {l l' : SlotList Copying} (allocator : l'.allocator = V.handle l.allocator)
    (len : l'.len = l.len) (each : List.Forall₂ V.Makes l.elements l'.elements) (m : Machine) :
    V.Answers (Except.map V.list) m (l.copyWith m) l'.copyWith := by
  have built := V.answers_withCapacity V.value l.allocator l.len m
  unfold Answers SlotList.copyWith at *
  rw [allocator, len]
  generalize SlotList.withCapacity l.allocator l.len m = answer at *
  obtain ⟨result, m'⟩ := answer
  cases result with
  | error e =>
    apply follows_map built
    intro n n' ended
    rw [ended]
    rfl
  | ok copy =>
    apply follows_then built (answers_pushCopies each copy m')
    intro n n' ended
    rw [ended]
    rfl

theorem answers_ofList {answer : Except Error ValueList × Machine}
    {work : Machine → Except Error ValueList × Machine}
    (made : V.Answers (Except.map V.list) m answer work) :
    V.Answers (Except.map V.value) m (Value.ofList answer) fun n => Value.ofList (work n) := by
  obtain ⟨result, m'⟩ := answer
  cases result with
  | error e =>
    apply follows_map made
    intro n n' ended
    rw [ended]
    rfl
  | ok l =>
    apply follows_map made
    intro n n' ended
    rw [ended]
    simp only [Value.ofList, Except.map, value_list]

theorem answers_ofText {answer : Except AllocationError TextBuffer × Machine}
    {work : Machine → Except AllocationError TextBuffer × Machine}
    (made : V.Answers (Except.map V.text) m answer work) :
    V.Answers (Except.map V.value) m (Value.ofText answer) fun n => Value.ofText (work n) := by
  obtain ⟨result, m'⟩ := answer
  cases result with
  | error e =>
    apply follows_map made
    intro n n' ended
    rw [ended]
    rfl
  | ok b =>
    apply follows_map made
    intro n n' ended
    rw [ended]
    rfl

theorem makes_duplicate (V : Veil) (v : Value) : V.Makes v.duplicate (V.value v).duplicate := by
  induction v using Value.induct_stored with
  | integer n => exact fun m => follows_here fun _ => rfl
  | real x => exact fun m => follows_here fun _ => rfl
  | text b => exact fun m => answers_ofText (V.answers_duplicateText b m)
  | boolean b => exact fun m => follows_here fun _ => rfl
  | list l each =>
    intro m
    have elements : (V.list l).elements = l.elements.map V.value := l.elements_recast
    rw [value_list]
    unfold Value.duplicate
    rw [Value.fold_list, Value.fold_list]
    apply answers_ofList
    refine answers_copyWith ?_ ?_ ?_ m
    · rfl
    · rfl
    rw [SlotList.elements_map, SlotList.elements_map, elements, List.map_map,
      List.forall₂_map_left_iff, List.forall₂_map_right_iff, List.forall₂_same]
    exact fun v member => each v (SlotList.mem_stored member)

end TrackedValues.Veil
