import TrackedValues.Text.Utf8

/-!
UTF-8 sequences. The bytes of a character are a lead byte and as many trailing bytes as the lead
byte announces, each in its range; and every such sequence is the encoding of one character. So
what stands at the head of a byte string can be said in terms of encodings alone.
-/
namespace TrackedValues.Utf8

def Trails : UInt8 × UInt8 → List UInt8 → Prop
  | _, [] => True
  | range, b :: rest => (range.1 ≤ b ∧ b ≤ range.2) ∧ Trails (0x80, 0xBF) rest

def gathered (bits : Nat) (trail : List UInt8) : Nat :=
  trail.foldl (fun bits b => bits * 64 + b.toNat % 64) bits

/-- A lead byte with all the trailing bytes that it announces. -/
structure WellFormed (lead : UInt8) (trail : List UInt8) : Prop where
  complete : announced lead = some trail.length
  trails : Trails (secondRange lead) trail

def Begins (bytes : List UInt8) : Prop := ∃ c, bytes <+: encodeChar c

/--
The first `width` bytes are a maximal subpart: no character is encoded at this point, and they are
the longest part that some encoding begins with, or a single byte if there is none.
-/
structure MaximalSubpart (bytes : List UInt8) (width : Nat) : Prop where
  positive : 0 < width
  inside : width ≤ bytes.length
  unconvertible : ∀ c, ¬ encodeChar c <+: bytes
  initial : width = 1 ∨ Begins (bytes.take width)
  longest : ∀ k, k ≤ bytes.length → Begins (bytes.take k) → k ≤ width

theorem announced_iff (lead : UInt8) (more : Nat) :
    announced lead = some more ↔
      more = 0 ∧ lead.toNat < 0x80 ∨
      more = 1 ∧ 0xC2 ≤ lead.toNat ∧ lead.toNat < 0xE0 ∨
      more = 2 ∧ 0xE0 ≤ lead.toNat ∧ lead.toNat < 0xF0 ∨
      more = 3 ∧ 0xF0 ≤ lead.toNat ∧ lead.toNat < 0xF5 := by
  simp only [announced, UInt8.lt_iff_toNat_lt]
  repeat' split
  all_goals simp_all
  all_goals omega

theorem leadBits_eq (lead : UInt8) :
    leadBits lead =
      if lead.toNat < 0x80 then lead.toNat
      else if lead.toNat < 0xE0 then lead.toNat % 32
      else if lead.toNat < 0xF0 then lead.toNat % 16
      else lead.toNat % 8 := by
  simp [leadBits, UInt8.lt_iff_toNat_lt]

theorem second_iff (lead b : UInt8) :
    ((secondRange lead).1 ≤ b ∧ b ≤ (secondRange lead).2) ↔
      0x80 ≤ b.toNat ∧ b.toNat ≤ 0xBF ∧
      (lead.toNat = 0xE0 → 0xA0 ≤ b.toNat) ∧ (lead.toNat = 0xED → b.toNat ≤ 0x9F) ∧
      (lead.toNat = 0xF0 → 0x90 ≤ b.toNat) ∧ (lead.toNat = 0xF4 → b.toNat ≤ 0x8F) := by
  simp only [secondRange, ← UInt8.toNat_inj]
  repeat' split
  all_goals simp_all [UInt8.le_iff_toNat_le]
  all_goals omega

theorem third_iff (b : UInt8) :
    ((0x80 : UInt8) ≤ b ∧ b ≤ 0xBF) ↔ 0x80 ≤ b.toNat ∧ b.toNat ≤ 0xBF := by
  simp [UInt8.le_iff_toNat_le]

theorem code_point (c : Char) :
    c.toNat < 0xD800 ∨ 0xE000 ≤ c.toNat ∧ c.toNat < 0x110000 := by
  have valid := c.valid
  simp only [UInt32.isValidChar, Nat.isValidChar] at valid
  change c.toNat < 0xD800 ∨ 0xDFFF < c.toNat ∧ c.toNat < 0x110000 at valid
  omega

theorem toNat_ofNat {n : Nat} (small : n < 0x100) : (UInt8.ofNat n).toNat = n := by
  simp only [UInt8.toNat_ofNat']
  omega

theorem encodeChar_wellFormed (c : Char) :
    ∃ lead trail, encodeChar c = lead :: trail ∧ WellFormed lead trail ∧
      gathered (leadBits lead) trail = c.toNat := by
  have valid := code_point c
  simp only [encodeChar]
  split
  · refine ⟨_, _, rfl, ⟨?_, trivial⟩, ?_⟩
    · rw [announced_iff, toNat_ofNat (by omega)]
      exact .inl ⟨rfl, by omega⟩
    · rw [gathered, leadBits_eq, toNat_ofNat (by omega), if_pos (by omega), List.foldl_nil]
  split
  · refine ⟨_, _, rfl, ⟨?_, ?_, trivial⟩, ?_⟩
    · rw [announced_iff, toNat_ofNat (by omega)]
      exact .inr (.inl ⟨rfl, by omega⟩)
    · rw [second_iff, toNat_ofNat (by omega), toNat_ofNat (by omega)]
      omega
    · rw [gathered, leadBits_eq, toNat_ofNat (by omega), if_neg (by omega), if_pos (by omega)]
      simp only [List.foldl_cons, List.foldl_nil]
      rw [toNat_ofNat (by omega)]
      omega
  split
  · refine ⟨_, _, rfl, ⟨?_, ?_, ?_, trivial⟩, ?_⟩
    · rw [announced_iff, toNat_ofNat (by omega)]
      exact .inr (.inr (.inl ⟨rfl, by omega⟩))
    · rw [second_iff, toNat_ofNat (by omega), toNat_ofNat (by omega)]
      omega
    · rw [third_iff, toNat_ofNat (by omega)]
      omega
    · rw [gathered, leadBits_eq, toNat_ofNat (by omega), if_neg (by omega), if_neg (by omega),
        if_pos (by omega)]
      simp only [List.foldl_cons, List.foldl_nil]
      rw [toNat_ofNat (by omega), toNat_ofNat (by omega)]
      omega
  · refine ⟨_, _, rfl, ⟨?_, ?_, ?_, ?_, trivial⟩, ?_⟩
    · rw [announced_iff, toNat_ofNat (by omega)]
      exact .inr (.inr (.inr ⟨rfl, by omega⟩))
    · rw [second_iff, toNat_ofNat (by omega), toNat_ofNat (by omega)]
      omega
    · rw [third_iff, toNat_ofNat (by omega)]
      omega
    · rw [third_iff, toNat_ofNat (by omega)]
      omega
    · rw [gathered, leadBits_eq, toNat_ofNat (by omega), if_neg (by omega), if_neg (by omega),
        if_neg (by omega)]
      simp only [List.foldl_cons, List.foldl_nil]
      rw [toNat_ofNat (by omega), toNat_ofNat (by omega), toNat_ofNat (by omega)]
      omega

theorem encodeChar_eq_utf8EncodeChar (c : Char) : encodeChar c = String.utf8EncodeChar c := by
  have valid := code_point c
  have value : c.val.toNat = c.toNat := rfl
  simp only [encodeChar, String.utf8EncodeChar, value]
  by_cases one : c.toNat < 0x80
  · rw [if_pos one, if_pos (by omega)]
  rw [if_neg one, if_neg (c := c.toNat ≤ 127) (by omega)]
  by_cases two : c.toNat < 0x800
  · rw [if_pos two, if_pos (by omega), Nat.mod_eq_of_lt (b := 32) (by omega), Nat.add_comm,
      Nat.add_comm 0x80]
  rw [if_neg two, if_neg (c := c.toNat ≤ 2047) (by omega)]
  by_cases three : c.toNat < 0x10000
  · rw [if_pos three, if_pos (by omega), Nat.mod_eq_of_lt (b := 16) (by omega), Nat.add_comm,
      Nat.add_comm 0x80, Nat.add_comm 0x80]
  · rw [if_neg three, if_neg (by omega), Nat.mod_eq_of_lt (b := 8) (by omega), Nat.add_comm,
      Nat.add_comm 0x80, Nat.add_comm 0x80, Nat.add_comm 0x80]

theorem encode_eq_utf8EncodeChar (text : List Char) :
    encode text = text.flatMap String.utf8EncodeChar := by
  rw [encode, funext encodeChar_eq_utf8EncodeChar]

theorem ofNat_eq {n : Nat} {b : UInt8} (same : n = b.toNat) : UInt8.ofNat n = b := by
  rw [same, UInt8.ofNat_toNat]

theorem char_toNat {n : Nat} (valid : n < 0xD800 ∨ 0xE000 ≤ n ∧ n < 0x110000) :
    (Char.ofNat n).toNat = n := by
  have scalar : n.isValidChar := by
    simp only [Nat.isValidChar]
    omega
  rw [Char.ofNat, dif_pos scalar]
  rfl

theorem WellFormed.encoded {lead : UInt8} {trail : List UInt8} (h : WellFormed lead trail) :
    encodeChar (Char.ofNat (gathered (leadBits lead) trail)) = lead :: trail := by
  have width := (announced_iff _ _).mp h.complete
  have trails := h.trails
  match trail, width, trails with
  | [], width, _ =>
    have low : lead.toNat < 0x80 := by
      simp only [List.length_nil] at width
      omega
    have bits : gathered (leadBits lead) [] = lead.toNat := by
      rw [gathered, leadBits_eq, if_pos low, List.foldl_nil]
    rw [bits, encodeChar, char_toNat (by omega), if_pos low, ofNat_eq rfl]
  | [b], width, ⟨second, _⟩ =>
    have lower : 0xC2 ≤ lead.toNat ∧ lead.toNat < 0xE0 := by
      simp only [List.length_cons, List.length_nil] at width
      omega
    rw [second_iff] at second
    have bits : gathered (leadBits lead) [b] = lead.toNat % 32 * 64 + b.toNat % 64 := by
      rw [gathered, leadBits_eq, if_neg (by omega), if_pos (by omega)]
      rfl
    rw [bits, encodeChar, char_toNat (by omega), if_neg (by omega), if_pos (by omega)]
    simp only [List.cons.injEq, and_true]
    exact ⟨ofNat_eq (by omega), ofNat_eq (by omega)⟩
  | [b, c], width, ⟨second, third, _⟩ =>
    have middle : 0xE0 ≤ lead.toNat ∧ lead.toNat < 0xF0 := by
      simp only [List.length_cons, List.length_nil] at width
      omega
    rw [second_iff] at second
    rw [third_iff] at third
    have bits : gathered (leadBits lead) [b, c] =
        (lead.toNat % 16 * 64 + b.toNat % 64) * 64 + c.toNat % 64 := by
      rw [gathered, leadBits_eq, if_neg (by omega), if_neg (by omega), if_pos (by omega)]
      rfl
    rw [bits, encodeChar, char_toNat (by omega), if_neg (by omega), if_neg (by omega),
      if_pos (by omega)]
    simp only [List.cons.injEq, and_true]
    exact ⟨ofNat_eq (by omega), ofNat_eq (by omega), ofNat_eq (by omega)⟩
  | [b, c, d], width, ⟨second, third, fourth, _⟩ =>
    have upper : 0xF0 ≤ lead.toNat ∧ lead.toNat < 0xF5 := by
      simp only [List.length_cons, List.length_nil] at width
      omega
    rw [second_iff] at second
    rw [third_iff] at third fourth
    have bits : gathered (leadBits lead) [b, c, d] =
        ((lead.toNat % 8 * 64 + b.toNat % 64) * 64 + c.toNat % 64) * 64 + d.toNat % 64 := by
      rw [gathered, leadBits_eq, if_neg (by omega), if_neg (by omega), if_neg (by omega)]
      rfl
    rw [bits, encodeChar, char_toNat (by omega), if_neg (by omega), if_neg (by omega),
      if_neg (by omega)]
    simp only [List.cons.injEq, and_true]
    exact ⟨ofNat_eq (by omega), ofNat_eq (by omega), ofNat_eq (by omega), ofNat_eq (by omega)⟩
  | _ :: _ :: _ :: _ :: _, width, _ =>
    simp only [List.length_cons] at width
    omega

theorem encodeChar_length_pos (c : Char) : 0 < (encodeChar c).length := by
  obtain ⟨lead, trail, shape, -⟩ := encodeChar_wellFormed c
  rw [shape]
  exact Nat.succ_pos _

theorem encodeChar_inj {c d : Char} {rest rest' : List UInt8}
    (same : encodeChar c ++ rest = encodeChar d ++ rest') : c = d ∧ rest = rest' := by
  obtain ⟨lead, trail, shape, formed, value⟩ := encodeChar_wellFormed c
  obtain ⟨lead', trail', shape', formed', value'⟩ := encodeChar_wellFormed d
  rw [shape, shape', List.cons_append, List.cons_append, List.cons.injEq] at same
  obtain ⟨rfl, same⟩ := same
  -- The lead byte says how long the encoding is.
  have width : trail.length = trail'.length :=
    Option.some.inj (formed.complete.symm.trans formed'.complete)
  obtain ⟨rfl, rest⟩ := List.append_inj same width
  exact ⟨Char.toNat_inj.mp (value.symm.trans value'), rest⟩

theorem trails_append (range : UInt8 × UInt8) (front back : List UInt8) :
    Trails range (front ++ back) ↔
      Trails range front ∧ Trails (if front = [] then range else (0x80, 0xBF)) back := by
  induction front generalizing range with
  | nil => simp [Trails]
  | cons b front ih =>
    simp only [List.cons_append, Trails, ih, and_assoc, reduceCtorEq, if_false]
    split <;> rfl

theorem second_nonempty (lead : UInt8) :
    (secondRange lead).1 ≤ (secondRange lead).2 := by
  simp only [secondRange]
  repeat' split
  all_goals decide

theorem trails_complete {range : UInt8 × UInt8} (nonempty : range.1 ≤ range.2) {more : Nat}
    {trail : List UInt8} (short : trail.length ≤ more) (trails : Trails range trail) :
    ∃ missing, (trail ++ missing).length = more ∧ Trails range (trail ++ missing) := by
  induction more generalizing range trail with
  | zero =>
    rw [List.eq_nil_of_length_eq_zero (Nat.le_zero.mp short)]
    exact ⟨[], rfl, trivial⟩
  | succ more ih =>
    cases trail with
    | nil =>
      have short : ([] : List UInt8).length ≤ more := Nat.zero_le more
      have none : Trails (0x80, 0xBF) [] := trivial
      obtain ⟨missing, width, fits⟩ := ih (by decide) short none
      refine ⟨range.1 :: missing, by simpa using width, ⟨UInt8.le_refl _, nonempty⟩, fits⟩
    | cons b trail =>
      obtain ⟨missing, width, fits⟩ :=
        ih (by decide) (Nat.le_of_succ_le_succ short) trails.2
      exact ⟨missing, by simpa using width, trails.1, fits⟩

theorem begins_iff (lead : UInt8) (trail : List UInt8) :
    Begins (lead :: trail) ↔
      ∃ more, announced lead = some more ∧ trail.length ≤ more ∧
        Trails (secondRange lead) trail := by
  constructor
  · rintro ⟨c, missing, whole⟩
    obtain ⟨first, after, shape, formed, -⟩ := encodeChar_wellFormed c
    rw [shape, List.cons_append, List.cons.injEq] at whole
    obtain ⟨rfl, rfl⟩ := whole
    refine ⟨_, formed.complete, ?_, ((trails_append _ _ _).mp formed.trails).1⟩
    rw [List.length_append]
    exact Nat.le_add_right _ _
  · rintro ⟨more, complete, short, trails⟩
    obtain ⟨missing, width, fits⟩ := trails_complete (second_nonempty lead) short trails
    have formed : WellFormed lead (trail ++ missing) := ⟨by rw [width, complete], fits⟩
    exact ⟨_, missing, formed.encoded.symm⟩

theorem continued_cases (more : Nat) (range : UInt8 × UInt8) (taken bits : Nat)
    (rest : List UInt8) :
    (∃ trail after, rest = trail ++ after ∧ trail.length = more ∧ Trails range trail ∧
      continued more range taken bits rest =
        .scalar (Char.ofNat (gathered bits trail)) (taken + more)) ∨
    (∃ trail b after, rest = trail ++ b :: after ∧ trail.length < more ∧
      Trails range trail ∧ ¬ Trails range (trail ++ [b]) ∧
      continued more range taken bits rest = .broken (taken + trail.length)) ∨
    (rest.length < more ∧ Trails range rest ∧ continued more range taken bits rest = .cut) := by
  induction more generalizing range taken bits rest with
  | zero => exact .inl ⟨[], rest, rfl, rfl, trivial, rfl⟩
  | succ more ih =>
    cases rest with
    | nil => exact .inr (.inr ⟨Nat.succ_pos _, trivial, rfl⟩)
    | cons b rest =>
      by_cases fits : range.1 ≤ b ∧ b ≤ range.2
      · simp only [continued, if_pos fits]
        rcases ih (0x80, 0xBF) (taken + 1) (bits * 64 + b.toNat % 64) rest with
          ⟨trail, after, rfl, width, trails, read⟩ |
          ⟨trail, d, after, rfl, short, trails, wrong, read⟩ | ⟨short, trails, read⟩
        · refine .inl ⟨b :: trail, after, rfl, congrArg (· + 1) width, ⟨fits, trails⟩, ?_⟩
          rw [read, Nat.add_right_comm]
          rfl
        · refine .inr (.inl ⟨b :: trail, d, after, rfl, Nat.succ_lt_succ short, ⟨fits, trails⟩,
            fun all => wrong all.2, ?_⟩)
          rw [read, List.length_cons, Nat.add_right_comm]
          rfl
        · exact .inr (.inr ⟨Nat.succ_lt_succ short, ⟨fits, trails⟩, read⟩)
      · refine .inr (.inl ⟨[], b, rest, rfl, Nat.succ_pos _, trivial, fun all => fits all.1, ?_⟩)
        simp only [continued, if_neg fits]
        rfl

theorem announced_of_encoded {c : Char} {lead : UInt8} {rest : List UInt8}
    (encoded : encodeChar c <+: lead :: rest) :
    ∃ more, announced lead = some more ∧ (encodeChar c).length = more + 1 := by
  obtain ⟨first, trail, shape, formed, -⟩ := encodeChar_wellFormed c
  rw [shape] at encoded ⊢
  obtain ⟨rfl, -⟩ := List.cons_prefix_cons.mp encoded
  exact ⟨_, formed.complete, rfl⟩

theorem maximalSubpart_of_bound {lead : UInt8} {rest : List UInt8} {width : Nat}
    (positive : 0 < width) (inside : width ≤ (lead :: rest).length)
    (initial : width = 1 ∨ Begins ((lead :: rest).take width))
    (bound : ∀ part, part <+: lead :: rest → Begins part → part.length ≤ width)
    (short : ∀ more, announced lead = some more → width < more + 1) :
    MaximalSubpart (lead :: rest) width where
  positive := positive
  inside := inside
  initial := initial
  unconvertible c encoded := by
    obtain ⟨more, announces, size⟩ := announced_of_encoded encoded
    have begun := bound _ encoded ⟨c, List.prefix_rfl⟩
    have less := short more announces
    omega
  longest k fits begun := by
    have most := bound _ (List.take_prefix k _) begun
    rwa [List.length_take, Nat.min_eq_left fits] at most

theorem length_le_of_wrong {lead b : UInt8} {trail after part : List UInt8}
    (wrong : ¬ Trails (secondRange lead) (trail ++ [b]))
    (initial : part <+: lead :: (trail ++ b :: after)) (begins : Begins part) :
    part.length ≤ 1 + trail.length := by
  rcases part with - | ⟨first, taken⟩
  · exact Nat.zero_le _
  obtain ⟨rfl, onward⟩ := List.cons_prefix_cons.mp initial
  obtain ⟨-, -, -, fits⟩ := (begins_iff _ _).mp begins
  refine Nat.le_of_not_lt fun long => ?_
  have reach : trail ++ [b] <+: taken := by
    refine List.prefix_of_prefix_length_le ⟨after, by simp⟩ onward ?_
    simp only [List.length_cons, List.length_append, List.length_nil] at long ⊢
    omega
  obtain ⟨others, rfl⟩ := reach
  exact wrong ((trails_append _ _ _).mp fits).1

theorem not_begins_of_stray {lead : UInt8} (stray : announced lead = none)
    (trail : List UInt8) : ¬ Begins (lead :: trail) := by
  intro begins
  obtain ⟨more, announces, -⟩ := (begins_iff lead trail).mp begins
  exact nomatch stray.symm.trans announces

/--
A character is encoded at the head of a byte string, or a maximal subpart stands there, which is
all that is left of the string or not; and `front` tells which.
-/
theorem front_cases (lead : UInt8) (rest : List UInt8) :
    (∃ c after, lead :: rest = encodeChar c ++ after ∧
      front lead rest = .scalar c (encodeChar c).length) ∨
    (∃ width, MaximalSubpart (lead :: rest) width ∧ ¬ Begins (lead :: rest) ∧
      front lead rest = .broken width) ∨
    (MaximalSubpart (lead :: rest) (lead :: rest).length ∧ Begins (lead :: rest) ∧
      front lead rest = .cut) := by
  cases announces : announced lead with
  | none =>
    refine .inr (.inl ⟨1, maximalSubpart_of_bound Nat.one_pos (Nat.succ_pos _) (.inl rfl) ?_ ?_,
      not_begins_of_stray announces rest, ?_⟩)
    · intro part initial begins
      cases part with
      | nil => exact Nat.zero_le _
      | cons first trail =>
        obtain ⟨rfl, -⟩ := List.cons_prefix_cons.mp initial
        exact absurd begins (not_begins_of_stray announces trail)
    · intro more announced
      exact nomatch announces.symm.trans announced
    · simp only [front, announces]
  | some more =>
    have read : front lead rest = continued more (secondRange lead) 1 (leadBits lead) rest := by
      simp only [front, announces]
    have alone (more' : Nat) (announced : announced lead = some more') : more' = more :=
      Option.some.inj (announced.symm.trans announces)
    rw [read]
    rcases continued_cases more (secondRange lead) 1 (leadBits lead) rest with
      ⟨trail, after, rfl, rfl, trails, scalar⟩ |
      ⟨trail, b, after, rfl, short, trails, wrong, broken⟩ | ⟨short, trails, cut⟩
    · have encoded := (WellFormed.mk announces trails).encoded
      refine .inl ⟨_, after, by rw [encoded, List.cons_append], ?_⟩
      rw [scalar, encoded, List.length_cons, Nat.add_comm]
    · have begun : Begins (lead :: trail) :=
        (begins_iff _ _).mpr ⟨more, announces, Nat.le_of_lt short, trails⟩
      have inside : 1 + trail.length < (lead :: (trail ++ b :: after)).length := by
        simp only [List.length_cons, List.length_append]
        omega
      refine .inr (.inl ⟨_, maximalSubpart_of_bound (by omega) (Nat.le_of_lt inside) (.inr ?_)
        (fun _ => length_le_of_wrong wrong) (fun more' announced => ?_), fun begins => ?_, broken⟩)
      · rwa [Nat.add_comm, List.take_succ_cons, List.take_left]
      · rw [alone more' announced]
        omega
      · have most := length_le_of_wrong wrong List.prefix_rfl begins
        omega
    · have begins : Begins (lead :: rest) :=
        (begins_iff _ _).mpr ⟨more, announces, Nat.le_of_lt short, trails⟩
      refine .inr (.inr ⟨maximalSubpart_of_bound (Nat.succ_pos _) (Nat.le_refl _) (.inr ?_)
        (fun _ initial _ => initial.length_le) (fun more' announced => ?_), begins, cut⟩)
      · rwa [List.take_length]
      · rw [alone more' announced, List.length_cons]
        omega

end TrackedValues.Utf8
