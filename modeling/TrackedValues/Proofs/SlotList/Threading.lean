import TrackedValues.SlotList.Links

/-!
Chains of slots in a table. A chain of nodes is threaded when every node points back to the one
before it and on to the one after it; a chain of vacant slots is threaded forwards only. The
statements here say what single changes of a table do to the chains in it.
-/
namespace TrackedValues.SlotList
variable {α : Type}

def places (nodes : List (Nat × α)) : List Nat := nodes.map Prod.fst

/-- Where a link into a chain of nodes leads: to its first slot, or past it if there is none. -/
def entry : List (Nat × α) → Option Nat → Option Nat
  | [], beyond => beyond
  | node :: _, _ => some node.1

def exit (before : Option Nat) : List (Nat × α) → Option Nat
  | [] => before
  | node :: rest => exit (some node.1) rest

/-- The nodes are occupied slots that lead from one to the next, from `prev` and to `next`. -/
def Threaded (slots : Array (Slot α)) : Option Nat → List (Nat × α) → Option Nat → Prop
  | _, [], _ => True
  | prev, node :: rest, next =>
    slots[node.1]? = some (.occupied prev (entry rest next) node.2) ∧
      Threaded slots (some node.1) rest next

def Vacancies (slots : Array (Slot α)) : List Nat → Prop
  | [] => True
  | i :: rest => slots[i]? = some (.vacant rest.head?) ∧ Vacancies slots rest

theorem places_append (pre post : List (Nat × α)) :
    places (pre ++ post) = places pre ++ places post := List.map_append

theorem entry_append (pre post : List (Nat × α)) (beyond : Option Nat) :
    entry (pre ++ post) beyond = entry pre (entry post beyond) := by
  cases pre <;> rfl

theorem exit_append (before : Option Nat) (pre post : List (Nat × α)) :
    exit before (pre ++ post) = exit (exit before pre) post := by
  induction pre generalizing before with
  | nil => rfl
  | cons node rest ih => exact ih _

theorem entry_eq_head? (nodes : List (Nat × α)) : entry nodes none = (places nodes).head? := by
  cases nodes <;> rfl

theorem exit_mem (nodes : List (Nat × α)) (i : Nat) (reached : exit none nodes = some i) :
    i ∈ places nodes := by
  rcases nodes.eq_nil_or_concat with rfl | ⟨init, node, rfl⟩
  · simp [exit] at reached
  · simp only [List.concat_eq_append, exit_append, exit, Option.some.injEq] at reached
    simp [places, reached]

theorem entry_mem (nodes : List (Nat × α)) (i : Nat) (reached : entry nodes none = some i) :
    i ∈ places nodes := by
  cases nodes with
  | nil => simp [entry] at reached
  | cons node rest =>
    simp only [entry, Option.some.injEq] at reached
    simp [places, reached]

theorem exit_eq_getLast? (nodes : List (Nat × α)) :
    exit none nodes = (places nodes).getLast? := by
  rcases nodes.eq_nil_or_concat with rfl | ⟨init, node, rfl⟩
  · rfl
  · simp [exit_append, exit, places]

theorem threaded_append (slots : Array (Slot α)) (prev next : Option Nat)
    (pre post : List (Nat × α)) :
    Threaded slots prev (pre ++ post) next ↔
      Threaded slots prev pre (entry post next) ∧ Threaded slots (exit prev pre) post next := by
  induction pre generalizing prev with
  | nil => simp [Threaded, exit]
  | cons node rest ih => simp [Threaded, exit, ih, entry_append, and_assoc]

theorem threaded_frame {slots changed : Array (Slot α)} {prev next : Option Nat}
    {nodes : List (Nat × α)} (threaded : Threaded slots prev nodes next)
    (same : ∀ i ∈ places nodes, changed[i]? = slots[i]?) : Threaded changed prev nodes next := by
  induction nodes generalizing prev with
  | nil => trivial
  | cons node rest ih =>
    simp only [places, List.map_cons, List.mem_cons, forall_eq_or_imp] at same
    exact ⟨same.1.trans threaded.1, ih threaded.2 same.2⟩

theorem threaded_occupied {slots : Array (Slot α)} {prev next : Option Nat}
    {nodes : List (Nat × α)} (threaded : Threaded slots prev nodes next)
    {node : Nat × α} (member : node ∈ nodes) :
    ∃ before after, slots[node.1]? = some (.occupied before after node.2) := by
  obtain ⟨pre, post, rfl⟩ := List.append_of_mem member
  have here := ((threaded_append slots prev next pre (node :: post)).mp threaded).2.1
  exact ⟨_, _, here⟩

theorem threaded_at {slots : Array (Slot α)} {pre post : List (Nat × α)} {i : Nat} {value : α}
    (threaded : Threaded slots none (pre ++ (i, value) :: post) none) :
    slots[i]? = some (.occupied (exit none pre) (entry post none) value) :=
  ((threaded_append slots none none pre ((i, value) :: post)).mp threaded).2.1

theorem vacancies_frame {slots changed : Array (Slot α)} {vacants : List Nat}
    (vacancies : Vacancies slots vacants)
    (same : ∀ i ∈ vacants, changed[i]? = slots[i]?) : Vacancies changed vacants := by
  induction vacants with
  | nil => trivial
  | cons i rest ih =>
    simp only [List.mem_cons, forall_eq_or_imp] at same
    exact ⟨same.1.trans vacancies.1, ih vacancies.2 same.2⟩

theorem vacancies_vacant {slots : Array (Slot α)} {vacants : List Nat}
    (vacancies : Vacancies slots vacants) {i : Nat} (member : i ∈ vacants) :
    ∃ nextFree, slots[i]? = some (.vacant nextFree) := by
  induction vacants with
  | nil => simp at member
  | cons j rest ih =>
    rcases List.mem_cons.mp member with rfl | later
    · exact ⟨_, vacancies.1⟩
    · exact ih vacancies.2 later

theorem getElem?_modify_other (slots : Array (Slot α)) (f : Slot α → Slot α) {i j : Nat}
    (other : j ≠ i) : (slots.modify i f)[j]? = slots[j]? := by
  simp [Array.getElem?_modify, Ne.symm other]

theorem getElem?_modify_here {slots : Array (Slot α)} (f : Slot α → Slot α) {i : Nat}
    {s : Slot α} (here : slots[i]? = some s) : (slots.modify i f)[i]? = some (f s) := by
  simp [Array.getElem?_modify, here]

theorem threaded_modify_other {slots : Array (Slot α)} {prev next : Option Nat}
    {nodes : List (Nat × α)} (threaded : Threaded slots prev nodes next)
    (f : Slot α → Slot α) {i : Nat} (outside : i ∉ places nodes) :
    Threaded (slots.modify i f) prev nodes next :=
  threaded_frame threaded fun _ member =>
    getElem?_modify_other slots f fun same => outside (same ▸ member)

theorem threaded_withNext {slots : Array (Slot α)} {prev next : Option Nat}
    {init : List (Nat × α)} {node : Nat × α} (link : Option Nat)
    (threaded : Threaded slots prev (init ++ [node]) next) (outside : node.1 ∉ places init) :
    Threaded (slots.modify node.1 (Slot.withNext link)) prev (init ++ [node]) link := by
  rw [threaded_append] at threaded ⊢
  obtain ⟨before, here, _⟩ := threaded
  exact ⟨threaded_modify_other before _ outside, getElem?_modify_here _ here, trivial⟩

theorem threaded_withPrev {slots : Array (Slot α)} {prev next : Option Nat}
    {node : Nat × α} {rest : List (Nat × α)} (link : Option Nat)
    (threaded : Threaded slots prev (node :: rest) next) (outside : node.1 ∉ places rest) :
    Threaded (slots.modify node.1 (Slot.withPrev link)) link (node :: rest) next :=
  ⟨getElem?_modify_here _ threaded.1, threaded_modify_other threaded.2 _ outside⟩

theorem threaded_withValue {slots : Array (Slot α)} {prev next : Option Nat}
    {pre post : List (Nat × α)} {i : Nat} {old : α} (value : α)
    (threaded : Threaded slots prev (pre ++ (i, old) :: post) next)
    (outside : i ∉ places pre ∧ i ∉ places post) :
    Threaded (slots.modify i (Slot.withValue value)) prev (pre ++ (i, value) :: post) next := by
  rw [threaded_append] at threaded ⊢
  obtain ⟨before, here, after⟩ := threaded
  exact ⟨threaded_modify_other before _ outside.1, getElem?_modify_here _ here,
    threaded_modify_other after _ outside.2⟩

end TrackedValues.SlotList
