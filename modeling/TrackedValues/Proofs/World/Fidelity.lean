import TrackedValues.Proofs.Value.Canonical
import TrackedValues.Proofs.World.Atomicity
import TrackedValues.Value.Order
import TrackedValues.Value.Rendering

/-!
Copies are faithful. The copy of a value is the same tree on the same allocators, bit for bit, in
storage that its content just fits. It is written as the original is, its own copies are like it,
and it equals the original exactly when there is no NaN anywhere in it.
-/
namespace TrackedValues

namespace Value

/-- The first value is the second one anew: the same tree, in storage that just fits. -/
inductive Copies : Value → Value → Prop
  | integer (n : Int64) : Copies (.integer n) (.integer n)
  | real (x : Binary64) : Copies (.real x) (.real x)
  | boolean (b : Bool) : Copies (.boolean b) (.boolean b)
  | text {b c : TextBuffer} (allocator : c.allocator = b.allocator) (policy : c.policy = b.policy)
    (content : c.content = b.content) (len : c.len = b.len) (capacity : c.capacity = b.len) :
    Copies (.text c) (.text b)
  | list {l k : ValueList} (allocator : k.allocator = l.allocator) (len : k.len = l.len)
    (capacity : k.capacity = if l.len = 0 then 0 else max l.len 4)
    (full : ∀ i, ¬k.IsVacant i) (length : k.elements.length = l.elements.length)
    (each : ∀ (i : Nat) (x y : Value), k.elements[i]? = some x → l.elements[i]? = some y →
      Copies x y) :
    Copies (.list k) (.list l)

theorem canonical_copies {v : Value} (sound : v.Sound) : v.canonical.Copies v := by
  induction sound with
  | integer n => exact .integer n
  | real x => exact .real x
  | boolean b => exact .boolean b
  | @text b sound =>
    exact .text rfl rfl (TextBuffer.content_trimmed sound) rfl (TextBuffer.capacity_trimmed sound)
  | @list l xs holds each ih =>
    have elements := SlotList.elements_eq holds
    have packed := SlotList.holds_packed l.allocator (xs.map canonical)
    obtain ⟨allocator, capacity⟩ := SlotList.packed_table l.allocator (xs.map canonical)
    have len := SlotList.len_eq_length holds
    rw [canonical_list, elements]
    refine .list allocator ?_ ?_ ?_ ?_ ?_
    · rw [SlotList.len_eq_length packed, len, List.length_map]
    · rw [capacity, List.length_map, len, SlotList.slotsFor]
    · exact SlotList.filled_full l.allocator (SlotList.le_slotsFor _)
    · rw [SlotList.elements_eq packed, elements, List.length_map]
    · intro i x y copy original
      rw [SlotList.elements_eq packed, List.getElem?_map] at copy
      rw [elements] at original
      rw [original] at copy
      cases copy
      exact ih y (List.mem_of_getElem? original)

theorem content_copies {w v : Value} (copies : w.Copies v) : w.content = v.content := by
  induction copies with
  | integer n => rfl
  | real x => rfl
  | boolean b => rfl
  | text _ _ content _ _ => exact congrArg Content.text content
  | @list l k _ _ _ _ length _ ih =>
    rw [content_list, content_list]
    congr 1
    apply List.ext_getElem (by simpa using length)
    intro i here there
    rw [List.length_map] at here there
    simp only [List.getElem_map]
    exact ih i _ _ (List.getElem?_eq_getElem here) (List.getElem?_eq_getElem there)

theorem sound_canonical {v : Value} (sound : v.Sound) : v.canonical.Sound := by
  induction sound with
  | integer n => exact .integer n
  | real x => exact .real x
  | boolean b => exact .boolean b
  | text sound => exact .text (TextBuffer.sound_trimmed sound)
  | @list l xs holds each ih =>
    rw [canonical_list, SlotList.elements_eq holds]
    apply Sound.list (SlotList.holds_packed l.allocator (xs.map canonical))
    intro x member
    obtain ⟨v, inside, rfl⟩ := List.mem_map.mp member
    exact ih v inside

theorem canonical_canonical {v : Value} (sound : v.Sound) :
    v.canonical.canonical = v.canonical := by
  induction sound with
  | integer n => rfl
  | real x => rfl
  | boolean b => rfl
  | @text b sound =>
    have same : b.trimmed.trimmed = b.trimmed := by
      rw [TextBuffer.trimmed, TextBuffer.content_trimmed sound]
      rfl
    exact congrArg text same
  | @list l xs holds each ih =>
    have packed := SlotList.holds_packed l.allocator (xs.map canonical)
    have again : (xs.map canonical).map canonical = xs.map canonical := by
      rw [List.map_map]
      exact List.map_congr_left ih
    rw [canonical_list, SlotList.elements_eq holds, canonical_list, SlotList.elements_eq packed,
      (SlotList.packed_table l.allocator (xs.map canonical)).1, again]

/-- No real of the value is a NaN, at any depth. -/
def NaNFree (v : Value) : Prop := ∀ x, (Value.real x).Inside v → x.isNaN = false

theorem nanFree_list (l : ValueList) :
    (list l).NaNFree ↔ ∀ v ∈ SlotList.elements l, v.NaNFree := by
  constructor
  · intro free v member x inside
    exact free x (.element member inside)
  · intro free x inside
    cases inside with
    | element member inside => exact free _ member x inside

theorem nanFree_real (x : Binary64) : (real x).NaNFree ↔ x.isNaN = false := by
  constructor
  · intro free
    exact free x (.itself _)
  · intro number y inside
    cases inside
    exact number

theorem iff_nanFree_of_leaf {same : Prop} {v : Value} (holds : same)
    (no_real : ∀ x, ¬(real x).Inside v) : same ↔ v.NaNFree :=
  iff_of_true holds fun x inside => absurd inside (no_real x)

end Value

namespace Content

theorem equalsAll_self (items : List Content) :
    equalsAll items items = true ↔ ∀ c ∈ items, c.equals c = true := by
  induction items with
  | nil => simp [equalsAll]
  | cons c more ih => simp [equalsAll, ih]

theorem orderAll?_self (items : List Content) :
    orderAll? items items = some .eq ↔ ∀ c ∈ items, c.order? c = some .eq := by
  induction items with
  | nil => simp [orderAll?]
  | cons c more ih =>
    rw [orderAll?, List.forall_mem_cons, ← ih]
    cases c.order? c with
    | none => simp
    | some o => cases o <;> simp

end Content

namespace Value

theorem equals_self_iff (v : Value) : v.content.equals v.content = true ↔ v.NaNFree := by
  induction v using induct_stored with
  | integer n => exact iff_nanFree_of_leaf (decide_eq_true rfl) nofun
  | text b => exact iff_nanFree_of_leaf (decide_eq_true rfl) nofun
  | boolean b => exact iff_nanFree_of_leaf (beq_self_eq_true b) nofun
  | real x =>
    rw [nanFree_real]
    simp [content, fold, contents, Content.equals, Binary64.equals]
  | list l each =>
    rw [content_list, Content.equals, nanFree_list]
    simp only [beq_self_eq_true, Bool.true_and, Content.equalsAll_self, List.forall_mem_map]
    exact forall₂_congr fun v member => each v (SlotList.mem_stored member)

theorem order?_self_iff (v : Value) : v.content.order? v.content = some .eq ↔ v.NaNFree := by
  induction v using induct_stored with
  | integer n => exact iff_nanFree_of_leaf (congrArg some Std.ReflCmp.compare_self) nofun
  | text b => exact iff_nanFree_of_leaf (congrArg some ((orderBytes_eq_iff _ _).mpr rfl)) nofun
  | boolean b =>
    have same : orderBooleans b b = .eq := by cases b <;> rfl
    exact iff_nanFree_of_leaf (congrArg some same) nofun
  | real x =>
    rw [nanFree_real]
    simp [content, fold, contents, Content.order?, Binary64.order?]
  | list l each =>
    rw [content_list, Content.order?, nanFree_list, Content.orderAll?_self]
    simp only [List.forall_mem_map]
    exact forall₂_congr fun v member => each v (SlotList.mem_stored member)

/-- What a copy owes the value that it was made of. -/
structure Replica (w v : Value) : Prop where
  copies : w.Copies v
  display : w.display = v.display
  debug : w.debug = v.debug
  again : ∀ m x m', w.duplicate m = (.ok x, m') → x = w
  equals_iff : w.equals v = true ↔ v.NaNFree
  order?_iff : w.order? v = some .eq ↔ v.NaNFree

theorem replica_canonical {v : Value} (sound : v.Sound) : v.canonical.Replica v := by
  have copies := canonical_copies sound
  have same := content_copies copies
  constructor
  · exact copies
  · exact congrArg Content.display same
  · exact congrArg Content.debug same
  · intro m x m' copied
    obtain ⟨rfl, _⟩ := duplicate_ok (sound_canonical sound) copied
    exact canonical_canonical sound
  · rw [equals, same]
    exact equals_self_iff v
  · rw [order?, same]
    exact order?_self_iff v

end Value

namespace World

/--
After any run, on whatever machine: if the copy of an owned value, or of a value inside one,
succeeds, it is faithful.
-/
theorem run_copies_faithfully (base : Base) (operations : List Operation) {owner v w : Value}
    {m m' : Machine} (owned : owner ∈ (run base operations).owned) (inside : v.Inside owner)
    (copied : v.duplicate m = (.ok w, m')) : w.Replica v := by
  have sound := Value.sound_inside inside (run_accounts_owned base operations owned).1
  obtain ⟨rfl, _⟩ := Value.duplicate_ok sound copied
  exact Value.replica_canonical sound

def strayNaN : Binary64 := ⟨0x7FF0000000000001⟩

/-- A list with a vacated slot and slots to spare holds a roomy text and a NaN. -/
def wornList : List Operation :=
  [.make (.roomyList (.tracked 0) 6), .make (.roomyText (.tracked 1) 9),
    .change 0 [] (.append [97]), .change 0 [] (.withPolicy (.make 3 16)), .give .back 0 0 [],
    .make (.integer 5), .give .front 0 0 [], .make (.real strayNaN), .give .back 0 0 [],
    .take .front 0 [], .drop 0]

theorem run_copies_faithfully_wornList :
    ∃ list copy m', (run .system wornList).owned = [list] ∧
      list.duplicate (run .system wornList).machine = (.ok copy, m') ∧
      copy.Replica list ∧ copy.equals list = false ∧
      list.containers = [⟨.tracked 0, 720⟩, ⟨.tracked 1, 9⟩] ∧
      copy.containers = [⟨.tracked 0, 480⟩, ⟨.tracked 1, 1⟩] := by
  obtain ⟨list, copy, m', owned, copied, unequal, before, after⟩ : ∃ list copy m',
      (run .system wornList).owned = [list] ∧
      list.duplicate (run .system wornList).machine = (.ok copy, m') ∧
      copy.equals list = false ∧ list.containers = [⟨.tracked 0, 720⟩, ⟨.tracked 1, 9⟩] ∧
      copy.containers = [⟨.tracked 0, 480⟩, ⟨.tracked 1, 1⟩] :=
    ⟨_, _, _, rfl, rfl, rfl, rfl, rfl⟩
  have owner : list ∈ (run .system wornList).owned := by simp [owned]
  have replica := run_copies_faithfully .system wornList owner (.itself list) copied
  exact ⟨list, copy, m', owned, copied, replica, unequal, before, after⟩

end World
end TrackedValues
