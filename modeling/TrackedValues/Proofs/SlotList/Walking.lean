import TrackedValues.Proofs.SlotList.Linking

/-!
Reading a list that satisfies its representation invariant. Walks from either end reach the slot
of a position, and the chain from the head reads off the whole sequence. A list holds a sequence
when it satisfies the invariant and its nodes carry the elements in that order.
-/
namespace TrackedValues.SlotList
variable {α : Type}

def values (nodes : List (Nat × α)) : List α := nodes.map Prod.snd

/-- The list satisfies its invariant and stands for this sequence. -/
def Holds (l : SlotList α) (xs : List α) : Prop :=
  ∃ nodes vacants, Linked l nodes vacants ∧ values nodes = xs

theorem holds_of_linked {l : SlotList α} {nodes : List (Nat × α)} {vacants : List Nat}
    (linked : Linked l nodes vacants) : Holds l (values nodes) := ⟨nodes, vacants, linked, rfl⟩

theorem node_at {l : SlotList α} {pre post : List (Nat × α)} {i : Nat} {value : α}
    (threaded : Threaded l.slots none (pre ++ (i, value) :: post) none) :
    l.node i = .ok (exit none pre, entry post none, value) := by
  simp [node, threaded_at threaded]

theorem valueAt_at {l : SlotList α} {pre post : List (Nat × α)} {i : Nat} {value : α}
    (threaded : Threaded l.slots none (pre ++ (i, value) :: post) none) :
    l.valueAt i = .ok value := by
  simp [valueAt, node_at threaded]

theorem walkNext_at {l : SlotList α} {pre post : List (Nat × α)} {node : Nat × α}
    (threaded : Threaded l.slots none (pre ++ node :: post) none) (steps : Nat) :
    l.walkNext node.1 steps = .ok (places (node :: post))[steps]? := by
  induction steps generalizing pre post node with
  | zero => rfl
  | succ steps ih =>
    simp only [walkNext, node_at threaded]
    cases post with
    | nil => rfl
    | cons after rest =>
      have further : Threaded l.slots none ((pre ++ [node]) ++ after :: rest) none := by
        simpa using threaded
      exact ih further

theorem walkPrev_at {l : SlotList α} {pre post : List (Nat × α)} {node : Nat × α}
    (threaded : Threaded l.slots none (pre ++ node :: post) none) (steps : Nat) :
    l.walkPrev node.1 steps = .ok (places (pre ++ [node])).reverse[steps]? := by
  induction steps generalizing pre post node with
  | zero => simp [walkPrev, places]
  | succ steps ih =>
    simp only [walkPrev, node_at threaded]
    rcases pre.eq_nil_or_concat with rfl | ⟨init, before, rfl⟩
    · simp [exit, places]
    · have earlier : Threaded l.slots none (init ++ before :: node :: post) none := by
        simpa using threaded
      have reached := ih earlier
      rw [List.concat_eq_append, exit_append]
      simpa [exit, places] using reached

theorem slotAt_linked {l : SlotList α} {nodes : List (Nat × α)} {vacants : List Nat}
    (linked : Linked l nodes vacants) (position : Nat) :
    l.slotAt position = .ok (places nodes)[position]? := by
  have len := linked.len_eq
  unfold slotAt
  by_cases outside : l.len ≤ position
  · rw [if_pos outside, List.getElem?_eq_none (by omega)]
  · rw [if_neg outside]
    split
    · cases nodes with
      | nil => simp [places] at len; omega
      | cons node rest =>
        have head : l.head = some node.1 := linked.leads.1
        simp only [head]
        have threaded : Threaded l.slots none ([] ++ node :: rest) none := linked.leads.2
        exact walkNext_at threaded position
    · rcases nodes.eq_nil_or_concat with rfl | ⟨init, node, rfl⟩
      · simp [places] at len; omega
      · rw [List.concat_eq_append] at *
        have tail : l.tail = some node.1 := linked.trails.1.trans (by simp [exit_append, exit])
        simp only [tail]
        have threaded : Threaded l.slots none (init ++ node :: []) none := linked.leads.2
        have reached := walkPrev_at threaded (l.len - 1 - position)
        rw [reached, List.getElem?_reverse (by omega)]
        congr 2
        omega

theorem chainFrom_at {l : SlotList α} {prev : Option Nat} {nodes : List (Nat × α)} {n : Nat}
    (threaded : Threaded l.slots prev nodes none) (enough : nodes.length ≤ n) :
    l.chainFrom n (entry nodes none) = places nodes := by
  induction nodes generalizing prev n with
  | nil => cases n <;> rfl
  | cons node rest ih =>
    cases n with
    | zero => simp at enough
    | succ n =>
      have here : entry (node :: rest) none = some node.1 := rfl
      have later := ih threaded.2 (Nat.le_of_succ_le_succ enough)
      rw [here]
      simp only [chainFrom, threaded.1, later]
      rfl

theorem chain_linked {l : SlotList α} {nodes : List (Nat × α)} {vacants : List Nat}
    (linked : Linked l nodes vacants) : l.chain = places nodes := by
  have len : l.len = nodes.length := by simpa [places] using linked.len_eq
  rw [chain, len, linked.leads.1]
  exact chainFrom_at linked.leads.2 (Nat.le_refl _)

theorem nodes_le_size {l : SlotList α} {nodes : List (Nat × α)} {vacants : List Nat}
    (linked : Linked l nodes vacants) : nodes.length ≤ l.slots.size := by
  have shared := linked.covers.length_eq
  simp only [places, List.length_append, List.length_map, List.length_range] at shared
  omega

theorem chainFrom_linked {l : SlotList α} {nodes : List (Nat × α)} {vacants : List Nat}
    (linked : Linked l nodes vacants) : l.chainFrom (l.slots.size + 1) l.head = places nodes := by
  rw [linked.leads.1]
  exact chainFrom_at linked.leads.2 (Nat.le_succ_of_le (nodes_le_size linked))

theorem filterMap_places {slots : Array (Slot α)} {prev next : Option Nat}
    {nodes : List (Nat × α)} (threaded : Threaded slots prev nodes next) :
    (places nodes).filterMap (fun i => slots[i]?.bind Slot.value?) = values nodes := by
  induction nodes generalizing prev with
  | nil => rfl
  | cons node rest ih =>
    have later := ih threaded.2
    simp only [places, values] at later
    simp [places, values, threaded.1, Slot.value?, later]

theorem filterMap_vacants {slots : Array (Slot α)} {vacants : List Nat}
    (vacancies : Vacancies slots vacants) :
    vacants.filterMap (fun i => slots[i]?.bind Slot.value?) = [] := by
  rw [List.filterMap_eq_nil_iff]
  intro i member
  obtain ⟨nextFree, here⟩ := vacancies_vacant vacancies member
  simp [here, Slot.value?]

theorem elements_linked {l : SlotList α} {nodes : List (Nat × α)} {vacants : List Nat}
    (linked : Linked l nodes vacants) : l.elements = values nodes := by
  rw [elements, chain_linked linked]
  exact filterMap_places linked.leads.2

/-- What following the next links from the head meets, within more steps than there are slots. -/
def followed (l : SlotList α) : List α :=
  (l.chainFrom (l.slots.size + 1) l.head).filterMap fun i => l.slots[i]?.bind Slot.value?

theorem filterMap_range {β γ : Type} (f : β → Option γ) (xs : List β) :
    (List.range xs.length).filterMap (fun i => xs[i]?.bind f) = xs.filterMap f := by
  induction xs with
  | nil => rfl
  | cons x xs ih =>
    rw [List.length_cons, List.range_succ_eq_map, List.filterMap_cons, List.filterMap_cons,
      List.filterMap_map]
    simp only [Function.comp_def, List.getElem?_cons_succ, ih]
    rfl

theorem stored_perm {l : SlotList α} {xs : List α} (holds : Holds l xs) : l.stored.Perm xs := by
  obtain ⟨nodes, vacants, linked, rfl⟩ := holds
  have table : l.stored =
      (List.range l.slots.size).filterMap fun i => l.slots[i]?.bind Slot.value? := by
    have listed := filterMap_range Slot.value? l.slots.toList
    simp only [Array.length_toList, Array.getElem?_toList] at listed
    exact listed.symm
  have covered := linked.covers.symm.filterMap fun i => l.slots[i]?.bind Slot.value?
  rw [List.filterMap_append, filterMap_places linked.leads.2,
    filterMap_vacants linked.vacancies, List.append_nil, ← table] at covered
  exact covered

theorem elements_eq {l : SlotList α} {xs : List α} (holds : Holds l xs) : l.elements = xs := by
  obtain ⟨nodes, vacants, linked, rfl⟩ := holds
  exact elements_linked linked

theorem followed_eq {l : SlotList α} {xs : List α} (holds : Holds l xs) : l.followed = xs := by
  obtain ⟨nodes, vacants, linked, rfl⟩ := holds
  rw [followed, chainFrom_linked linked]
  exact filterMap_places linked.leads.2

theorem len_eq_length {l : SlotList α} {xs : List α} (holds : Holds l xs) : l.len = xs.length := by
  obtain ⟨nodes, vacants, linked, rfl⟩ := holds
  simpa [places, values] using linked.len_eq

theorem valueOf_places {l : SlotList α} {nodes : List (Nat × α)} {vacants : List Nat}
    (linked : Linked l nodes vacants) (position : Nat) :
    l.valueOf (places nodes)[position]? = .ok (values nodes)[position]? := by
  by_cases inside : position < nodes.length
  · have split : nodes = nodes.take position ++ nodes[position] :: nodes.drop (position + 1) := by
      simp
    have threaded := linked.leads.2
    rw [split] at threaded
    have here : l.valueAt nodes[position].1 = .ok nodes[position].2 := valueAt_at threaded
    simp [places, values, inside, valueOf, here]
  · simp [places, values, valueOf, Nat.not_lt.mp inside]

theorem get_eq {l : SlotList α} {xs : List α} (holds : Holds l xs) (position : Nat) :
    l.get position = .ok xs[position]? := by
  obtain ⟨nodes, vacants, linked, rfl⟩ := holds
  simp only [get, slotAt_linked linked]
  exact valueOf_places linked position

theorem front_eq {l : SlotList α} {xs : List α} (holds : Holds l xs) :
    l.front = .ok xs.head? := by
  obtain ⟨nodes, vacants, linked, rfl⟩ := holds
  have first := valueOf_places linked 0
  rw [front, linked.leads.1, entry_eq_head?, List.head?_eq_getElem?, first,
    List.head?_eq_getElem?]

theorem back_eq {l : SlotList α} {xs : List α} (holds : Holds l xs) :
    l.back = .ok xs.getLast? := by
  obtain ⟨nodes, vacants, linked, rfl⟩ := holds
  have last := valueOf_places linked (nodes.length - 1)
  have same : (places nodes).length = (values nodes).length := by simp [places, values]
  have len : nodes.length = (values nodes).length := by simp [values]
  rw [back, linked.trails.1, exit_eq_getLast?, List.getLast?_eq_getElem?, same, ← len, last,
    List.getLast?_eq_getElem?, ← len]

end TrackedValues.SlotList
