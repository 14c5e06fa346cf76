import TrackedValues.Proofs.SlotList.Threading
import TrackedValues.SlotList.Table

/-!
The representation invariant of a list. Its occupied slots are threaded from the head to the tail,
its vacant slots from the first free one, and together they are all slots of the table. Linking,
unlinking, overwriting and clearing keep the invariant, and each does one thing to the nodes.
-/
namespace TrackedValues.SlotList
variable {α : Type}

/-- The taken and the vacant slots share the table between them. -/
structure Tiled (l : SlotList α) (taken vacants : List Nat) : Prop where
  free_eq : l.free = vacants.head?
  vacancies : Vacancies l.slots vacants
  covers : (taken ++ vacants).Perm (List.range l.slots.size)
  len_eq : l.len = taken.length
  fits : l.slots.size ≤ l.capacity

def Leads (l : SlotList α) (nodes : List (Nat × α)) (next : Option Nat) : Prop :=
  l.head = entry nodes next ∧ Threaded l.slots none nodes next

def Trails (l : SlotList α) (prev : Option Nat) (nodes : List (Nat × α)) : Prop :=
  l.tail = exit prev nodes ∧ Threaded l.slots prev nodes none

/-- The list stands for the elements of the nodes, in this order, and has these vacant slots. -/
structure Linked (l : SlotList α) (nodes : List (Nat × α)) (vacants : List Nat) : Prop
    extends Tiled l (places nodes) vacants where
  leads : Leads l nodes none
  trails : Trails l none nodes
  forgotten : nodes = [] → vacants = []

theorem tiled_nodup {l : SlotList α} {taken vacants : List Nat} (tiled : Tiled l taken vacants) :
    (taken ++ vacants).Nodup := tiled.covers.nodup_iff.mpr List.nodup_range

theorem tiled_bound {l : SlotList α} {taken vacants : List Nat} (tiled : Tiled l taken vacants)
    {i : Nat} (member : i ∈ taken ++ vacants) : i < l.slots.size :=
  List.mem_range.mp (tiled.covers.subset member)

theorem taken_not_vacant {l : SlotList α} {taken vacants : List Nat}
    (tiled : Tiled l taken vacants) {i : Nat} (member : i ∈ taken) : i ∉ vacants := fun also =>
  (List.nodup_append.mp (tiled_nodup tiled)).2.2 i member i also rfl

theorem linked_nodup {l : SlotList α} {nodes : List (Nat × α)} {vacants : List Nat}
    (linked : Linked l nodes vacants) : (places nodes).Nodup :=
  (List.nodup_append.mp (tiled_nodup linked.toTiled)).1

theorem node_outside {pre post : List (Nat × α)} {node : Nat × α}
    (nodup : (places (pre ++ node :: post)).Nodup) :
    node.1 ∉ places pre ∧ node.1 ∉ places post := by
  rw [places_append, List.nodup_append] at nodup
  obtain ⟨_, rest, apart⟩ := nodup
  constructor
  · intro member
    exact apart node.1 member node.1 (by simp [places]) rfl
  · exact (List.nodup_cons.mp rest).1

theorem tiled_frame {l changed : SlotList α} {taken vacants : List Nat}
    (tiled : Tiled l taken vacants) (free : changed.free = l.free) (len : changed.len = l.len)
    (capacity : changed.capacity = l.capacity) (size : changed.slots.size = l.slots.size)
    (same : ∀ i ∈ vacants, changed.slots[i]? = l.slots[i]?) : Tiled changed taken vacants where
  free_eq := free.trans tiled.free_eq
  vacancies := vacancies_frame tiled.vacancies same
  covers := by
    rw [size]
    exact tiled.covers
  len_eq := len.trans tiled.len_eq
  fits := by
    rw [size, capacity]
    exact tiled.fits

theorem tiled_modify {l : SlotList α} {taken vacants : List Nat} (tiled : Tiled l taken vacants)
    (f : Slot α → Slot α) {i : Nat} (member : i ∈ taken) :
    Tiled { l with slots := l.slots.modify i f } taken vacants := by
  refine tiled_frame tiled rfl rfl rfl (by simp) ?_
  intro j vacant
  apply getElem?_modify_other
  intro same
  exact taken_not_vacant tiled member (same ▸ vacant)

theorem tiled_setNextOrHead {l : SlotList α} {taken vacants : List Nat}
    (tiled : Tiled l taken vacants) {place : Option Nat} (link : Option Nat)
    (member : ∀ i ∈ place, i ∈ taken) : Tiled (l.setNextOrHead place link) taken vacants := by
  cases place with
  | none => exact tiled_frame tiled rfl rfl rfl rfl fun _ _ => rfl
  | some i => exact tiled_modify tiled _ (member i rfl)

theorem tiled_setPrevOrTail {l : SlotList α} {taken vacants : List Nat}
    (tiled : Tiled l taken vacants) {place : Option Nat} (link : Option Nat)
    (member : ∀ i ∈ place, i ∈ taken) : Tiled (l.setPrevOrTail place link) taken vacants := by
  cases place with
  | none => exact tiled_frame tiled rfl rfl rfl rfl fun _ _ => rfl
  | some i => exact tiled_modify tiled _ (member i rfl)

theorem leads_setNextOrHead {l : SlotList α} {nodes : List (Nat × α)} {next : Option Nat}
    (link : Option Nat) (leads : Leads l nodes next) (nodup : (places nodes).Nodup) :
    Leads (l.setNextOrHead (exit none nodes) link) nodes link := by
  rcases nodes.eq_nil_or_concat with rfl | ⟨init, node, rfl⟩
  · exact ⟨rfl, trivial⟩
  · rw [List.concat_eq_append] at *
    have outside := (node_outside nodup).1
    have last : exit none (init ++ [node]) = some node.1 := by simp [exit_append, exit]
    rw [last]
    obtain ⟨head, threaded⟩ := leads
    constructor
    · rw [entry_append] at head ⊢
      exact head
    · exact threaded_withNext link threaded outside

theorem threaded_setNextOrHead {l : SlotList α} {prev next place : Option Nat}
    {nodes : List (Nat × α)} (link : Option Nat) (threaded : Threaded l.slots prev nodes next)
    (outside : ∀ i ∈ place, i ∉ places nodes) :
    Threaded (l.setNextOrHead place link).slots prev nodes next := by
  cases place with
  | none => exact threaded
  | some i => exact threaded_modify_other threaded _ (outside i rfl)

theorem threaded_setPrevOrTail {l : SlotList α} {prev next place : Option Nat}
    {nodes : List (Nat × α)} (link : Option Nat) (threaded : Threaded l.slots prev nodes next)
    (outside : ∀ i ∈ place, i ∉ places nodes) :
    Threaded (l.setPrevOrTail place link).slots prev nodes next := by
  cases place with
  | none => exact threaded
  | some i => exact threaded_modify_other threaded _ (outside i rfl)

theorem tail_setNextOrHead (l : SlotList α) (place link : Option Nat) :
    (l.setNextOrHead place link).tail = l.tail := by
  cases place <;> rfl

theorem head_setPrevOrTail (l : SlotList α) (place link : Option Nat) :
    (l.setPrevOrTail place link).head = l.head := by
  cases place <;> rfl

theorem trails_setPrevOrTail {l : SlotList α} {prev : Option Nat} {nodes : List (Nat × α)}
    (link : Option Nat) (trails : Trails l prev nodes) (nodup : (places nodes).Nodup) :
    Trails (l.setPrevOrTail (entry nodes none) link) link nodes := by
  cases nodes with
  | nil => exact ⟨rfl, trivial⟩
  | cons node rest =>
    exact ⟨trails.1, threaded_withPrev link trails.2 (List.nodup_cons.mp nodup).1⟩

def Roomy (l : SlotList α) : Prop := l.free.isSome ∨ l.slots.size < l.capacity

instance (l : SlotList α) : Decidable l.Roomy := inferInstanceAs (Decidable (_ ∨ _))

theorem nextSlot_fresh {l : SlotList α} {taken vacants : List Nat}
    (tiled : Tiled l taken vacants) : l.nextSlot ∉ taken := by
  intro member
  cases vacants with
  | nil =>
    have free : l.free = none := tiled.free_eq
    have bound := tiled_bound tiled (List.mem_append_left [] member)
    simp [nextSlot, free] at bound
  | cons i rest =>
    have free : l.free = some i := tiled.free_eq
    rw [nextSlot, free, Option.getD_some] at member
    exact taken_not_vacant tiled member List.mem_cons_self

theorem nextSlot_place {l : SlotList α} {taken vacants : List Nat} (tiled : Tiled l taken vacants)
    (prev next : Option Nat) (value : α) :
    (l.place prev next value).slots[l.nextSlot]? = some (.occupied prev next value) := by
  cases vacants with
  | nil =>
    have free : l.free = none := tiled.free_eq
    simp [place, nextSlot, free]
  | cons i rest =>
    have free : l.free = some i := tiled.free_eq
    have bound := tiled_bound tiled (List.mem_append_right taken (List.mem_cons_self (a := i)))
    simp [place, nextSlot, free, bound]

theorem place_other {l : SlotList α} {taken vacants : List Nat} (tiled : Tiled l taken vacants)
    (prev next : Option Nat) (value : α) {j : Nat} (inside : j < l.slots.size)
    (other : j ≠ l.nextSlot) : (l.place prev next value).slots[j]? = l.slots[j]? := by
  cases vacants with
  | nil =>
    have free : l.free = none := tiled.free_eq
    simp [place, free, Array.getElem?_push, Nat.ne_of_lt inside]
  | cons i rest =>
    have free : l.free = some i := tiled.free_eq
    rw [nextSlot, free, Option.getD_some] at other
    simp [place, free, Ne.symm other]

theorem tiled_place {l : SlotList α} {taken vacants : List Nat} (tiled : Tiled l taken vacants)
    (roomy : l.Roomy) (prev next : Option Nat) (value : α) :
    Tiled (l.place prev next value) (taken ++ [l.nextSlot]) vacants.tail := by
  cases vacants with
  | nil =>
    have free : l.free = none := tiled.free_eq
    have spare : l.slots.size < l.capacity := by simpa [Roomy, free] using roomy
    have covers : taken.Perm (List.range l.slots.size) := by simpa using tiled.covers
    have longer := covers.append_right [l.slots.size]
    rw [← List.range_succ] at longer
    have len := tiled.len_eq
    constructor
    · simp [place, free]
    · trivial
    · simpa [place, nextSlot, free] using longer
    · simp [place, free, len]
    · simp only [place, free, Array.size_push]
      exact Nat.succ_le_of_lt spare
  | cons i rest =>
    have free : l.free = some i := tiled.free_eq
    obtain ⟨here, later⟩ := tiled.vacancies
    have after : l.freeAfter i = rest.head? := by simp [freeAfter, here]
    have apart : ∀ j ∈ rest, j ≠ i := fun j member same =>
      (List.nodup_cons.mp (List.nodup_append.mp (tiled_nodup tiled)).2.1).1 (same ▸ member)
    constructor
    · simp [place, free, after]
    · refine vacancies_frame later fun j member => ?_
      apply place_other tiled
      · exact tiled_bound tiled (List.mem_append_right _ (List.mem_cons_of_mem i member))
      · simpa [nextSlot, free] using apart j member
    · simpa [place, nextSlot, free] using tiled.covers
    · simp [place, free, tiled.len_eq]
    · simpa [place, free] using tiled.fits

theorem threaded_place {l : SlotList α} {nodes : List (Nat × α)} {vacants : List Nat}
    (tiled : Tiled l (places nodes) vacants) (prev next : Option Nat) (value : α)
    (threaded : Threaded l.slots none nodes none) :
    Threaded (l.place prev next value).slots none nodes none := by
  apply threaded_frame threaded
  intro j member
  apply place_other tiled
  · exact tiled_bound tiled (List.mem_append_left _ member)
  · intro same
    exact nextSlot_fresh tiled (same ▸ member)

theorem place_ends (l : SlotList α) (prev next : Option Nat) (value : α) :
    (l.place prev next value).head = l.head ∧ (l.place prev next value).tail = l.tail := by
  unfold place
  split <;> exact ⟨rfl, rfl⟩

theorem linked_linkBack {l : SlotList α} {nodes : List (Nat × α)} {vacants : List Nat}
    (linked : Linked l nodes vacants) (roomy : l.Roomy) (value : α) :
    Linked (l.linkBack value) (nodes ++ [(l.nextSlot, value)]) vacants.tail := by
  have fresh := nextSlot_fresh linked.toTiled
  have tail : l.tail = exit none nodes := linked.trails.1
  have inside : ∀ i ∈ l.tail, i ∈ places nodes := fun i member =>
    exit_mem nodes i (tail.symm.trans member)
  -- The new node is placed with its links, and only then does the old tail lead to it.
  let placed := l.place l.tail none value
  let relinked := placed.setNextOrHead l.tail (some l.nextSlot)
  have tiled : Tiled relinked (places nodes ++ [l.nextSlot]) vacants.tail :=
    tiled_setNextOrHead (tiled_place linked.toTiled roomy _ _ _) _ fun i member =>
      List.mem_append_left _ (inside i member)
  have leads : Leads relinked nodes (some l.nextSlot) := by
    have before : Leads placed nodes none :=
      ⟨(place_ends l _ _ _).1.trans linked.leads.1,
        threaded_place linked.toTiled _ _ _ linked.leads.2⟩
    have after := leads_setNextOrHead (some l.nextSlot) before (linked_nodup linked)
    rwa [← tail] at after
  have last : Threaded relinked.slots l.tail [(l.nextSlot, value)] none := by
    have alone : Threaded placed.slots l.tail [(l.nextSlot, value)] none :=
      ⟨nextSlot_place linked.toTiled _ _ _, trivial⟩
    refine threaded_setNextOrHead _ alone ?_
    intro i member same
    simp only [places, List.map_cons, List.map_nil, List.mem_singleton] at same
    exact fresh (same ▸ inside i member)
  have threaded : Threaded relinked.slots none (nodes ++ [(l.nextSlot, value)]) none := by
    rw [threaded_append, ← tail]
    exact ⟨leads.2, last⟩
  refine ⟨?_, ⟨?_, threaded⟩, ⟨?_, threaded⟩, by simp⟩
  · rw [places_append]
    exact tiled_frame tiled rfl rfl rfl rfl fun _ _ => rfl
  · rw [entry_append]
    exact leads.1
  · rw [exit_append]
    rfl

theorem tiled_perm {l : SlotList α} {taken other vacants : List Nat}
    (tiled : Tiled l taken vacants) (perm : other.Perm taken) : Tiled l other vacants where
  free_eq := tiled.free_eq
  vacancies := tiled.vacancies
  covers := (perm.append_right vacants).trans tiled.covers
  len_eq := tiled.len_eq.trans perm.length_eq.symm
  fits := tiled.fits

theorem linked_linkFront {l : SlotList α} {nodes : List (Nat × α)} {vacants : List Nat}
    (linked : Linked l nodes vacants) (roomy : l.Roomy) (value : α) :
    Linked (l.linkFront value) ((l.nextSlot, value) :: nodes) vacants.tail := by
  have fresh := nextSlot_fresh linked.toTiled
  have head : l.head = entry nodes none := linked.leads.1
  have inside : ∀ i ∈ l.head, i ∈ places nodes := fun i member =>
    entry_mem nodes i (head.symm.trans member)
  let placed := l.place none l.head value
  let relinked := placed.setPrevOrTail l.head (some l.nextSlot)
  have tiled : Tiled relinked (places nodes ++ [l.nextSlot]) vacants.tail :=
    tiled_setPrevOrTail (tiled_place linked.toTiled roomy _ _ _) _ fun i member =>
      List.mem_append_left _ (inside i member)
  have trails : Trails relinked (some l.nextSlot) nodes := by
    have before : Trails placed none nodes :=
      ⟨(place_ends l _ _ _).2.trans linked.trails.1,
        threaded_place linked.toTiled _ _ _ linked.trails.2⟩
    have after := trails_setPrevOrTail (some l.nextSlot) before (linked_nodup linked)
    rwa [← head] at after
  have first : Threaded relinked.slots none [(l.nextSlot, value)] l.head := by
    have alone : Threaded placed.slots none [(l.nextSlot, value)] l.head :=
      ⟨nextSlot_place linked.toTiled _ _ _, trivial⟩
    refine threaded_setPrevOrTail _ alone ?_
    intro i member same
    simp only [places, List.map_cons, List.map_nil, List.mem_singleton] at same
    exact fresh (same ▸ inside i member)
  have threaded : Threaded relinked.slots none ((l.nextSlot, value) :: nodes) none := by
    rw [head] at first
    exact ⟨first.1, trails.2⟩
  refine ⟨?_, ⟨rfl, threaded⟩, ⟨trails.1, threaded⟩, by simp⟩
  have moved := tiled_perm tiled (List.perm_append_singleton l.nextSlot (places nodes)).symm
  exact tiled_frame moved rfl rfl rfl rfl fun _ _ => rfl

theorem threaded_vacate {l : SlotList α} {prev next : Option Nat} {nodes : List (Nat × α)} {i : Nat}
    (threaded : Threaded l.slots prev nodes next) (outside : i ∉ places nodes) :
    Threaded (l.vacate i).slots prev nodes next := by
  apply threaded_frame threaded
  intro j member
  have other : i ≠ j := fun same => outside (same ▸ member)
  simp [vacate, other]

theorem tiled_vacate {l : SlotList α} {before after vacants : List Nat} {i : Nat}
    (tiled : Tiled l (before ++ i :: after) vacants) :
    Tiled (l.vacate i) (before ++ after) (i :: vacants) where
  free_eq := rfl
  vacancies := by
    have member : i ∈ before ++ i :: after := by simp
    have inside := tiled_bound tiled (List.mem_append_left vacants member)
    have apart := taken_not_vacant tiled member
    refine ⟨by simp [vacate, inside, tiled.free_eq], vacancies_frame tiled.vacancies ?_⟩
    intro j vacant
    have other : i ≠ j := fun same => apart (same ▸ vacant)
    simp [vacate, other]
  covers := by
    have moved : (before ++ after ++ i :: vacants).Perm (before ++ i :: after ++ vacants) := by
      simp only [List.append_assoc, List.cons_append]
      exact List.perm_middle.append_left before
    simpa [vacate] using moved.trans tiled.covers
  len_eq := by
    have len := tiled.len_eq
    simp only [List.length_append, List.length_cons] at len
    simp only [vacate, len, List.length_append]
    omega
  fits := by
    simpa [vacate] using tiled.fits

theorem linked_forgetIfEmpty {l : SlotList α} {nodes : List (Nat × α)} {vacants : List Nat}
    (tiled : Tiled l (places nodes) vacants) (leads : Leads l nodes none)
    (trails : Trails l none nodes) :
    Linked l.forgetIfEmpty nodes (if nodes = [] then [] else vacants) := by
  unfold forgetIfEmpty
  cases nodes with
  | nil =>
    have none_left : l.len = 0 := tiled.len_eq
    rw [if_pos none_left]
    refine ⟨⟨rfl, trivial, ?_, none_left, Nat.zero_le _⟩, ⟨leads.1, trivial⟩, ⟨trails.1, trivial⟩,
      fun _ => rfl⟩
    simp [places]
  | cons node rest =>
    have some_left : l.len ≠ 0 := by simp [tiled.len_eq, places]
    rw [if_neg some_left]
    exact ⟨tiled, leads, trails, by simp⟩

/-- Unlinking takes one node out; its slot is the next to be used, unless no node is left. -/
theorem linked_detach {l : SlotList α} {pre post : List (Nat × α)} {i : Nat} {value : α}
    {vacants : List Nat} (linked : Linked l (pre ++ (i, value) :: post) vacants) :
    Linked (l.detach i (exit none pre) (entry post none)) (pre ++ post)
      (if pre ++ post = [] then [] else i :: vacants) := by
  have nodup := linked_nodup linked
  obtain ⟨outside_pre, outside_post⟩ := node_outside nodup
  rw [places_append, List.nodup_append] at nodup
  obtain ⟨nodup_pre, nodup_post, apart⟩ := nodup
  have nodup_post := (List.nodup_cons.mp nodup_post).2
  have before : ∀ j ∈ exit none pre, j ∈ places pre := fun j member => exit_mem pre j member
  have after : ∀ j ∈ entry post none, j ∈ places post := fun j member => entry_mem post j member
  obtain ⟨head, threaded⟩ := linked.leads
  rw [threaded_append] at threaded
  have tail := linked.trails.1
  rw [entry_append] at head
  rw [exit_append] at tail
  -- Between the two changes the nodes before the slot are joined, and those behind it are not yet.
  let once := (l.vacate i).setNextOrHead (exit none pre) (entry post none)
  let twice := once.setPrevOrTail (entry post none) (exit none pre)
  have tiled : Tiled twice (places (pre ++ post)) (i :: vacants) := by
    have tiled := linked.toTiled
    rw [places_append] at tiled ⊢
    refine tiled_setPrevOrTail (tiled_setNextOrHead (tiled_vacate tiled) _ ?_) _ ?_
    · exact fun j member => List.mem_append_left _ (before j member)
    · exact fun j member => List.mem_append_right _ (after j member)
  have leads : Leads once pre (entry post none) :=
    leads_setNextOrHead _ ⟨head, threaded_vacate threaded.1 outside_pre⟩ nodup_pre
  have fore : Threaded twice.slots none pre (entry post none) := by
    refine threaded_setPrevOrTail _ leads.2 ?_
    intro j member also
    exact apart j also j (List.mem_cons_of_mem i (after j member)) rfl
  have trails : Trails twice (exit none pre) post := by
    refine trails_setPrevOrTail _ ⟨(tail_setNextOrHead _ _ _).trans tail, ?_⟩ nodup_post
    refine threaded_setNextOrHead _ (threaded_vacate threaded.2.2 outside_post) ?_
    intro j member also
    exact apart j (before j member) j (List.mem_cons_of_mem i also) rfl
  have whole : Threaded twice.slots none (pre ++ post) none :=
    (threaded_append _ _ _ _ _).mpr ⟨fore, trails.2⟩
  unfold detach
  apply linked_forgetIfEmpty tiled
  · constructor
    · rw [entry_append, head_setPrevOrTail]
      exact leads.1
    · exact whole
  · constructor
    · rw [exit_append]
      exact trails.1
    · exact whole

theorem linked_setValue {l : SlotList α} {pre post : List (Nat × α)} {i : Nat} {old : α}
    {vacants : List Nat} (linked : Linked l (pre ++ (i, old) :: post) vacants) (value : α) :
    Linked (l.setValue i value) (pre ++ (i, value) :: post) vacants := by
  have same : places (pre ++ (i, value) :: post) = places (pre ++ (i, old) :: post) := by
    simp [places]
  have member : i ∈ places (pre ++ (i, old) :: post) := by simp [places]
  have threaded := threaded_withValue value linked.leads.2 (node_outside (linked_nodup linked))
  refine ⟨?_, ⟨?_, threaded⟩, ⟨?_, threaded⟩, by simp⟩
  · rw [same]
    exact tiled_modify linked.toTiled _ member
  · have head := linked.leads.1
    rw [entry_append] at head ⊢
    exact head
  · have tail := linked.trails.1
    rw [exit_append] at tail ⊢
    exact tail

theorem linked_empty (a : Allocator) : Linked (empty a : SlotList α) [] [] := by
  refine ⟨⟨rfl, trivial, ?_, rfl, Nat.le_refl _⟩, ⟨rfl, trivial⟩, ⟨rfl, trivial⟩, fun _ => rfl⟩
  simp [empty, places]

theorem linked_clear (l : SlotList α) : Linked l.clear [] [] := by
  refine ⟨⟨rfl, trivial, ?_, rfl, Nat.zero_le _⟩, ⟨rfl, trivial⟩, ⟨rfl, trivial⟩, fun _ => rfl⟩
  simp [clear, places]

theorem linked_capacity {l : SlotList α} {nodes : List (Nat × α)} {vacants : List Nat}
    (linked : Linked l nodes vacants) {target : Nat} (larger : l.capacity ≤ target) :
    Linked { l with capacity := target } nodes vacants where
  free_eq := linked.free_eq
  vacancies := linked.vacancies
  covers := linked.covers
  len_eq := linked.len_eq
  fits := Nat.le_trans linked.fits larger
  leads := linked.leads
  trails := linked.trails
  forgotten := linked.forgotten

end TrackedValues.SlotList
