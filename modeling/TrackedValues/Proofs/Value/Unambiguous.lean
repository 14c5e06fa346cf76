import TrackedValues.Proofs.Decimal.Written
import TrackedValues.Proofs.Text.Quoted
import TrackedValues.Proofs.Value.Order
import TrackedValues.Value.Rendering

/-!
The debugging form is unambiguous. Whatever follows it, the text of a value tells where it ends and
which tree it stands for, down to the bits of every real that is a number. Nothing else shows in it.
-/
namespace TrackedValues

namespace Content
open Reading

inductive Alike : Content → Content → Prop
  | integer (n : Int64) : Alike (.integer n) (.integer n)
  | real {x y : Binary64} (same : x = y ∨ x.isNaN = true ∧ y.isNaN = true) :
    Alike (.real x) (.real y)
  | text (bytes : List UInt8) : Alike (.text bytes) (.text bytes)
  | boolean (b : Bool) : Alike (.boolean b) (.boolean b)
  | list {as bs : List Content} (length : as.length = bs.length)
    (each : ∀ (i : Nat) (a b : Content), as[i]? = some a → bs[i]? = some b → Alike a b) :
    Alike (.list as) (.list bs)

theorem alike_list {as bs : List Content} (rows : List.Forall₂ Alike as bs) :
    Alike (.list as) (.list bs) := by
  obtain ⟨length, each⟩ := List.forall₂_iff_get.mp rows
  refine .list length fun i a b first second => ?_
  obtain ⟨inside, rfl⟩ := List.getElem?_eq_some_iff.mp first
  obtain ⟨inside', rfl⟩ := List.getElem?_eq_some_iff.mp second
  exact each i inside inside'

def shape : Content → Shape
  | integer _ => .integer
  | real _ => .real
  | text _ => .string
  | boolean _ => .boolean
  | list _ => .list

def payloadOnto : Content → List Char → List Char
  | integer n, rest => intText n.toInt ++ ')' :: rest
  | real x, rest => x.render ++ ')' :: rest
  | text bytes, rest => bytesText bytes ++ ')' :: rest
  | boolean b, rest => boolText b ++ ')' :: rest
  | list items, rest => '[' :: debugRowOnto [] items (']' :: ')' :: rest)

theorem debugOnto_eq_payload (c : Content) (rest : List Char) :
    debugOnto c rest = openLabel c.shape ++ c.payloadOnto rest := by
  cases c <;> simp [debugOnto, labelled, payloadOnto, shape]

theorem openLabel_unique {s t : Shape} {rest behind : List Char}
    (same : openLabel s ++ rest = openLabel t ++ behind) : s = t ∧ rest = behind := by
  cases s <;> cases t <;> simp_all [openLabel, Shape.name]

theorem not_mem_boolText (b : Bool) : ')' ∉ boolText b := by
  cases b <;> decide

theorem boolText_injective {p q : Bool} (same : boolText p = boolText q) : p = q := by
  revert p q
  decide

def ReadsUniquely (a : Content) : Prop := ∀ (b : Content) (rest behind : List Char),
  debugOnto a rest = debugOnto b behind → Alike a b ∧ rest = behind

/-- The label tells the shape, so it is enough to compare contents of one shape. -/
theorem readsUniquely_of_payload {a : Content} (unique : ∀ (b : Content) (rest behind : List Char),
    a.shape = b.shape → a.payloadOnto rest = b.payloadOnto behind → Alike a b ∧ rest = behind) :
    a.ReadsUniquely := by
  intro b rest behind same
  rw [debugOnto_eq_payload, debugOnto_eq_payload b] at same
  obtain ⟨shapes, payload⟩ := openLabel_unique same
  exact unique b rest behind shapes payload

theorem row_unique {items others : List Content} (each : ∀ c ∈ items, c.ReadsUniquely)
    {rest behind : List Char}
    (same : debugRowOnto comma items (']' :: rest) = debugRowOnto comma others (']' :: behind)) :
    List.Forall₂ Alike items others ∧ rest = behind := by
  induction items generalizing others with
  | nil =>
    cases others with
    | nil => exact ⟨.nil, (List.cons.inj same).2⟩
    | cons d others => simp [debugRowOnto, comma] at same
  | cons c items ih =>
    cases others with
    | nil => simp [debugRowOnto, comma] at same
    | cons d others =>
      rw [debugRowOnto, debugRowOnto] at same
      obtain ⟨first, rows⟩ := each c List.mem_cons_self d _ _ (List.append_cancel_left same)
      obtain ⟨more, ends⟩ := ih (fun c member => each c (List.mem_cons_of_mem _ member)) rows
      exact ⟨.cons first more, ends⟩

theorem not_closing_debugOnto (c : Content) (rest behind : List Char) :
    debugOnto c rest ≠ ']' :: behind := by
  rw [debugOnto_eq_payload]
  cases c.shape <;> simp [openLabel, Shape.name]

/-- The first element has no comma before it, so it is told from the end by its label. -/
theorem items_unique {items others : List Content} (each : ∀ c ∈ items, c.ReadsUniquely)
    {rest behind : List Char}
    (same : debugRowOnto [] items (']' :: rest) = debugRowOnto [] others (']' :: behind)) :
    List.Forall₂ Alike items others ∧ rest = behind := by
  cases items with
  | nil =>
    cases others with
    | nil => exact ⟨.nil, (List.cons.inj same).2⟩
    | cons d others => exact absurd same.symm (not_closing_debugOnto d _ _)
  | cons c items =>
    cases others with
    | nil => exact absurd same (not_closing_debugOnto c _ _)
    | cons d others =>
      obtain ⟨first, rows⟩ := each c List.mem_cons_self d _ _ same
      obtain ⟨more, ends⟩ :=
        row_unique (fun c member => each c (List.mem_cons_of_mem _ member)) rows
      exact ⟨.cons first more, ends⟩

theorem readsUniquely (a : Content) : a.ReadsUniquely := by
  induction a using induct with
  | integer n =>
    refine readsUniquely_of_payload fun b rest behind shapes payload => ?_
    cases b with
    | integer k =>
      obtain ⟨number, ends⟩ := eq_of_append_stop (not_mem_intText rfl (by decide) _)
        (not_mem_intText rfl (by decide) _) payload
      rw [Int64.toInt_inj.mp (intText_injective number)]
      exact ⟨.integer k, ends⟩
    | _ => cases shapes
  | real x =>
    refine readsUniquely_of_payload fun b rest behind shapes payload => ?_
    cases b with
    | real y =>
      obtain ⟨number, ends⟩ := eq_of_append_stop x.not_mem_render y.not_mem_render payload
      exact ⟨.real ((Binary64.render_eq_iff x y).mp number), ends⟩
    | _ => cases shapes
  | text bytes =>
    refine readsUniquely_of_payload fun b rest behind shapes payload => ?_
    cases b with
    | text others =>
      obtain ⟨rfl, ends⟩ := bytesText_unique payload
      exact ⟨.text bytes, (List.cons.inj ends).2⟩
    | _ => cases shapes
  | boolean p =>
    refine readsUniquely_of_payload fun b rest behind shapes payload => ?_
    cases b with
    | boolean q =>
      obtain ⟨word, ends⟩ := eq_of_append_stop (not_mem_boolText p) (not_mem_boolText q) payload
      rw [boolText_injective word]
      exact ⟨.boolean q, ends⟩
    | _ => cases shapes
  | list items each =>
    refine readsUniquely_of_payload fun b rest behind shapes payload => ?_
    cases b with
    | list others =>
      obtain ⟨rows, ends⟩ := items_unique each (List.cons.inj payload).2
      exact ⟨alike_list rows, (List.cons.inj ends).2⟩
    | _ => cases shapes

theorem debug_of_alike {a b : Content} (alike : Alike a b) : a.debug = b.debug := by
  induction alike with
  | integer n => rfl
  | real same => simp only [debug, debugOnto, (Binary64.render_eq_iff _ _).mpr same]
  | text bytes => rfl
  | boolean b => rfl
  | @list as bs length _ ih =>
    have rows : as.map debug = bs.map debug := by
      apply List.ext_getElem (by simpa using length)
      intro i here there
      rw [List.length_map] at here there
      simp only [List.getElem_map]
      exact ih i _ _ (List.getElem?_eq_getElem here) (List.getElem?_eq_getElem there)
    rw [debug_list, debug_list, rows]

theorem debug_eq_iff (a b : Content) : a.debug = b.debug ↔ Alike a b :=
  ⟨fun same => (readsUniquely a b [] [] same).1, debug_of_alike⟩

end Content

namespace Value

/--
The same tree: the same shape everywhere, equal integers and booleans, reals of the same bits
unless they are NaNs, texts of the same bytes, and lists of as many elements. How it is stored is
left out.
-/
inductive Alike : Value → Value → Prop
  | integer (n : Int64) : Alike (.integer n) (.integer n)
  | real {x y : Binary64} (same : x = y ∨ x.isNaN = true ∧ y.isNaN = true) :
    Alike (.real x) (.real y)
  | text {b c : TextBuffer} (content : b.content = c.content) : Alike (.text b) (.text c)
  | boolean (b : Bool) : Alike (.boolean b) (.boolean b)
  | list {l k : ValueList} (length : l.elements.length = k.elements.length)
    (each : ∀ (i : Nat) (x y : Value), l.elements[i]? = some x → k.elements[i]? = some y →
      Alike x y) :
    Alike (.list l) (.list k)

theorem content_alike {v w : Value} (alike : v.Alike w) : v.content.Alike w.content := by
  induction alike with
  | integer n => exact .integer n
  | real same => exact .real same
  | @text b c content =>
    have same : (Value.text b).content = (Value.text c).content := congrArg Content.text content
    rw [same]
    exact .text c.content
  | boolean b => exact .boolean b
  | @list l k length _ ih =>
    rw [content_list, content_list]
    refine .list (by simpa using length) fun i a b first second => ?_
    rw [List.getElem?_map, Option.map_eq_some_iff] at first second
    obtain ⟨x, here, rfl⟩ := first
    obtain ⟨y, there, rfl⟩ := second
    exact ih i x y here there

def Says (v : Value) : Content → Prop
  | .integer n => v = .integer n
  | .real x => v = .real x
  | .text bytes => ∃ b : TextBuffer, v = .text b ∧ b.content = bytes
  | .boolean b => v = .boolean b
  | .list items => ∃ l : ValueList, v = .list l ∧ l.elements.map content = items

theorem says_of_content {v : Value} {a : Content} (said : v.content = a) : v.Says a := by
  subst said
  cases v with
  | text b => exact ⟨b, rfl, rfl⟩
  | list l =>
    rw [content_list]
    exact ⟨l, rfl, rfl⟩
  | _ => rfl

theorem alike_of_content {v w : Value} (alike : v.content.Alike w.content) : v.Alike w := by
  generalize said : v.content = a at alike
  generalize said' : w.content = b at alike
  induction alike generalizing v w with
  | integer n =>
    obtain rfl := says_of_content said
    obtain rfl := says_of_content said'
    exact .integer n
  | real same =>
    obtain rfl := says_of_content said
    obtain rfl := says_of_content said'
    exact .real same
  | text bytes =>
    obtain ⟨b, rfl, content⟩ := says_of_content said
    obtain ⟨c, rfl, content'⟩ := says_of_content said'
    exact .text (content.trans content'.symm)
  | boolean b =>
    obtain rfl := says_of_content said
    obtain rfl := says_of_content said'
    exact .boolean b
  | list length _ ih =>
    obtain ⟨l, rfl, rfl⟩ := says_of_content said
    obtain ⟨k, rfl, rfl⟩ := says_of_content said'
    refine .list (by simpa using length) fun i x y here there => ?_
    apply ih i x.content y.content _ _ rfl rfl
    · rw [List.getElem?_map, here]
      rfl
    · rw [List.getElem?_map, there]
      rfl

/--
Two values have the same debugging text exactly if they are the same tree. Capacities, policies,
allocators and the order of the slots do not show.
-/
theorem debug_eq_iff_alike (v w : Value) : v.debug = w.debug ↔ v.Alike w :=
  (Content.debug_eq_iff v.content w.content).trans ⟨alike_of_content, content_alike⟩

example : (Value.text ⟨.base, .doubling, #[0x31, 0xFF], 2⟩).debug = "String([49, 255])".toList := by
  rfl

end Value
end TrackedValues
