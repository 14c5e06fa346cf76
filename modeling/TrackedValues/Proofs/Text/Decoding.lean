import TrackedValues.Proofs.Text.Encoding

/-!
The strict and the lossy view of byte strings. Both take a byte string apart in the same way, into
encodings of characters and maximal subparts: the strict view ends at the first subpart, and the
lossy view goes on behind it.
-/
namespace TrackedValues.Utf8

/-- A byte string is empty, or a character or a maximal subpart stands at its head. -/
theorem parts_induction {motive : List UInt8 → Prop} (empty : motive [])
    (scalar : ∀ c rest, motive rest → motive (encodeChar c ++ rest))
    (subpart : ∀ bytes width, MaximalSubpart bytes width → motive (bytes.drop width) →
      motive bytes)
    (bytes : List UInt8) : motive bytes := by
  induction size : bytes.length using Nat.strongRecOn generalizing bytes with
  | ind size ih =>
    subst size
    have broken {width : Nat} (part : MaximalSubpart bytes width) : motive bytes := by
      have positive := part.positive
      have inside := part.inside
      refine subpart bytes width part (ih _ ?_ _ rfl)
      rw [List.length_drop]
      omega
    cases bytes with
    | nil => exact empty
    | cons lead rest =>
      rcases front_cases lead rest with ⟨c, after, shape, -⟩ | ⟨width, part, -⟩ | ⟨part, -⟩
      · rw [shape]
        refine scalar c after (ih _ ?_ _ rfl)
        have positive := encodeChar_length_pos c
        rw [shape, List.length_append]
        omega
      · exact broken part
      · exact broken part

theorem front_scalar {c : Char} {lead : UInt8} {rest after : List UInt8}
    (shape : lead :: rest = encodeChar c ++ after) :
    front lead rest = .scalar c (encodeChar c).length := by
  have encoded : encodeChar c <+: lead :: rest := ⟨after, shape.symm⟩
  rcases front_cases lead rest with ⟨d, after', shape', read⟩ | ⟨width, part, -⟩ | ⟨part, -⟩
  · obtain ⟨rfl, -⟩ := encodeChar_inj (shape.symm.trans shape')
    exact read
  · exact absurd encoded (part.unconvertible c)
  · exact absurd encoded (part.unconvertible c)

theorem front_encodeChar (c : Char) (rest : List UInt8) :
    ∃ lead trail, encodeChar c = lead :: trail ∧
      front lead (trail ++ rest) = .scalar c (trail.length + 1) := by
  obtain ⟨lead, trail, shape, -⟩ := encodeChar_wellFormed c
  have read : front lead (trail ++ rest) = .scalar c (encodeChar c).length :=
    front_scalar (by rw [shape, List.cons_append])
  rw [shape] at read
  exact ⟨lead, trail, shape, read⟩

theorem MaximalSubpart.exists_cons {bytes : List UInt8} {width : Nat}
    (part : MaximalSubpart bytes width) : ∃ lead rest, bytes = lead :: rest :=
  List.exists_cons_of_length_pos (Nat.lt_of_lt_of_le part.positive part.inside)

theorem MaximalSubpart.width_unique {bytes : List UInt8} {n k : Nat}
    (first : MaximalSubpart bytes n) (second : MaximalSubpart bytes k) : n = k := by
  have least {i j : Nat} (h : MaximalSubpart bytes i) (g : MaximalSubpart bytes j) : i ≤ j := by
    rcases h.initial with single | begins
    · exact single ▸ g.positive
    · exact g.longest i h.inside begins
  exact Nat.le_antisymm (least first second) (least second first)

theorem front_broken {lead : UInt8} {rest : List UInt8} {width : Nat}
    (part : MaximalSubpart (lead :: rest) width) (ended : ¬ Begins (lead :: rest)) :
    front lead rest = .broken width := by
  rcases front_cases lead rest with ⟨c, after, shape, -⟩ | ⟨n, part', -, read⟩ | ⟨-, begins, -⟩
  · exact absurd ⟨after, shape.symm⟩ (part.unconvertible c)
  · rw [read, part'.width_unique part]
  · exact absurd begins ended

theorem front_cut {lead : UInt8} {rest : List UInt8} {width : Nat}
    (part : MaximalSubpart (lead :: rest) width) (begins : Begins (lead :: rest)) :
    front lead rest = .cut := by
  rcases front_cases lead rest with ⟨c, after, shape, -⟩ | ⟨n, -, ended, -⟩ | ⟨-, -, read⟩
  · exact absurd ⟨after, shape.symm⟩ (part.unconvertible c)
  · exact absurd begins ended
  · exact read

theorem MaximalSubpart.width_of_begins {bytes : List UInt8} {width : Nat}
    (part : MaximalSubpart bytes width) (begins : Begins bytes) : width = bytes.length :=
  Nat.le_antisymm part.inside
    (part.longest _ (Nat.le_refl _) (by rwa [List.take_length]))

def Fault.after (before : Nat) (f : Fault) : Fault := ⟨before + f.validUpTo, f.length⟩

theorem decodeFrom_skip (skip position : Nat) (bytes : List UInt8) :
    decodeFrom skip position bytes = decodeFrom 0 (position + skip) (bytes.drop skip) := by
  induction bytes generalizing skip position with
  | nil => rw [List.drop_nil, decodeFrom, decodeFrom]
  | cons b bytes ih =>
    cases skip with
    | zero => rfl
    | succ skip =>
      rw [decodeFrom, ih, List.drop_succ_cons, Nat.add_assoc, Nat.add_comm 1 skip]

theorem decodeFrom_position (before position skip : Nat) (bytes : List UInt8) :
    decodeFrom skip (before + position) bytes =
      (decodeFrom skip position bytes).mapError (Fault.after before) := by
  induction bytes generalizing skip position with
  | nil => rfl
  | cons lead rest ih =>
    cases skip with
    | succ skip => rw [decodeFrom, decodeFrom, Nat.add_assoc, ih]
    | zero =>
      simp only [decodeFrom]
      cases front lead rest with
      | scalar c width =>
        simp only [Nat.add_assoc, ih]
        cases decodeFrom (width - 1) (position + 1) rest <;> rfl
      | broken width => rfl
      | cut => rfl

theorem decode_encodeChar_append (c : Char) (rest : List UInt8) :
    decode (encodeChar c ++ rest) =
      match decode rest with
      | .ok text => .ok (c :: text)
      | .error fault => .error (fault.after (encodeChar c).length) := by
  obtain ⟨lead, trail, shape, read⟩ := front_encodeChar c rest
  have width : 0 + 1 + trail.length = trail.length + 1 + 0 := by omega
  rw [shape, List.cons_append, decode, decodeFrom, read]
  simp only [Nat.add_sub_cancel, decodeFrom_skip _ (0 + 1), List.drop_left, List.length_cons]
  rw [width, decodeFrom_position, decode]
  cases decodeFrom 0 0 rest <;> rfl

theorem decode_broken {bytes : List UInt8} {width : Nat} (part : MaximalSubpart bytes width)
    (ended : ¬ Begins bytes) : decode bytes = .error ⟨0, some width⟩ := by
  obtain ⟨lead, rest, rfl⟩ := part.exists_cons
  rw [decode, decodeFrom, front_broken part ended]

theorem decode_cut {bytes : List UInt8} {width : Nat} (part : MaximalSubpart bytes width)
    (begins : Begins bytes) : decode bytes = .error ⟨0, none⟩ := by
  obtain ⟨lead, rest, rfl⟩ := part.exists_cons
  rw [decode, decodeFrom, front_cut part begins]

theorem decode_encode (text : List Char) : decode (encode text) = .ok text := by
  induction text with
  | nil => rfl
  | cons c text ih =>
    rw [encode, List.flatMap_cons, decode_encodeChar_append, ← encode, ih]

theorem lossyFrom_skip (skip : Nat) (bytes : List UInt8) :
    lossyFrom skip bytes = lossy (bytes.drop skip) := by
  induction bytes generalizing skip with
  | nil => rw [List.drop_nil, lossy, lossyFrom, lossyFrom]
  | cons b bytes ih =>
    cases skip with
    | zero => rfl
    | succ skip => rw [lossyFrom, ih, List.drop_succ_cons]

theorem lossy_encodeChar_append (c : Char) (rest : List UInt8) :
    lossy (encodeChar c ++ rest) = c :: lossy rest := by
  obtain ⟨lead, trail, shape, read⟩ := front_encodeChar c rest
  rw [shape, List.cons_append, lossy, lossyFrom, read]
  simp only [lossyFrom_skip, Nat.add_sub_cancel, List.drop_left]

theorem lossy_subpart {bytes : List UInt8} {width : Nat} (part : MaximalSubpart bytes width) :
    lossy bytes = replacement :: lossy (bytes.drop width) := by
  obtain ⟨lead, rest, rfl⟩ := part.exists_cons
  by_cases begins : Begins (lead :: rest)
  · rw [part.width_of_begins begins, List.drop_length, lossy, lossyFrom, front_cut part begins]
    rfl
  · obtain ⟨n, rfl⟩ := Nat.exists_eq_add_one_of_ne_zero (Nat.pos_iff_ne_zero.mp part.positive)
    rw [lossy, lossyFrom, front_broken part begins]
    simp only [lossyFrom_skip, Nat.add_sub_cancel, List.drop_succ_cons]

theorem decode_ok {bytes : List UInt8} {text : List Char} (decodes : decode bytes = .ok text) :
    encode text = bytes ∧ lossy bytes = text := by
  induction bytes using parts_induction generalizing text with
  | empty =>
    obtain rfl := Except.ok.inj decodes
    exact ⟨rfl, rfl⟩
  | scalar c rest ih =>
    rw [decode_encodeChar_append] at decodes
    cases onward : decode rest with
    | error fault => rw [onward] at decodes; cases decodes
    | ok more =>
      rw [onward] at decodes
      obtain rfl := Except.ok.inj decodes
      obtain ⟨encoded, shown⟩ := ih onward
      refine ⟨?_, by rw [lossy_encodeChar_append, shown]⟩
      rw [encode, List.flatMap_cons, ← encode, encoded]
  | subpart bytes width part ih =>
    by_cases begins : Begins bytes
    · rw [decode_cut part begins] at decodes
      cases decodes
    · rw [decode_broken part begins] at decodes
      cases decodes

/--
What a fault says: the bytes before it decode, and a maximal subpart stands at it, which has the
length that the fault names, or is what is left if the fault names none. The lossy view shows the
text before it, one replacement character, and what it shows of the bytes behind the subpart.
-/
theorem decode_error {bytes : List UInt8} {f : Fault} (faulty : decode bytes = .error f) :
    ∃ text width, decode (bytes.take f.validUpTo) = .ok text ∧
      MaximalSubpart (bytes.drop f.validUpTo) width ∧
      (f.length = some width ∧ ¬ Begins (bytes.drop f.validUpTo) ∨
        f.length = none ∧ Begins (bytes.drop f.validUpTo)) ∧
      lossy bytes = text ++ replacement :: lossy (bytes.drop (f.validUpTo + width)) := by
  induction bytes using parts_induction generalizing f with
  | empty => cases faulty
  | scalar c rest ih =>
    rw [decode_encodeChar_append] at faulty
    cases onward : decode rest with
    | ok text => rw [onward] at faulty; cases faulty
    | error later =>
      rw [onward] at faulty
      obtain rfl := Except.error.inj faulty
      obtain ⟨text, width, valid, part, named, shown⟩ := ih onward
      have behind (n : Nat) : (encodeChar c ++ rest).drop ((encodeChar c).length + n) =
          rest.drop n := List.drop_length_add_append n
      refine ⟨c :: text, width, ?_, ?_, ?_, ?_⟩
      · rw [Fault.after, List.take_length_add_append, decode_encodeChar_append, valid]
      · rwa [Fault.after, behind]
      · rwa [Fault.after, behind]
      · rw [Fault.after, Nat.add_assoc, behind, lossy_encodeChar_append, shown, List.cons_append]
  | subpart bytes width part ih =>
    have shown := lossy_subpart part
    by_cases begins : Begins bytes
    · rw [decode_cut part begins] at faulty
      obtain rfl := Except.error.inj faulty
      exact ⟨[], width, rfl, part, .inr ⟨rfl, begins⟩, by rwa [Nat.zero_add]⟩
    · rw [decode_broken part begins] at faulty
      obtain rfl := Except.error.inj faulty
      exact ⟨[], width, rfl, part, .inl ⟨rfl, begins⟩, by rwa [Nat.zero_add]⟩

end TrackedValues.Utf8
