import TrackedValues.Decimal
import TrackedValues.Proofs.Decimal.Intervals
import TrackedValues.Proofs.Text.Numeral

/-!
Written reals are read back. Positional or with an exponent, a decimal is written as digits before
and behind a point, so its value can be read off its text. The text of a real therefore tells its
sign and its magnitude, and only the NaNs are written alike.
-/
namespace TrackedValues

namespace Decimal
open Reading

/-- The value of a decimal text: digits around a point, and an exponent behind them. -/
def readValue (text : List Char) : ℚ :=
  let parts := cut 'e' text
  let sides := cut '.' parts.1
  readDigits 10 (sides.1 ++ sides.2) * (10 : ℚ) ^ (readInteger parts.2 - sides.2.length)

def AllDigits (text : List Char) : Prop := ∀ c ∈ text, c.isDigit = true

theorem AllDigits.not_mem {text : List Char} (digits : AllDigits text) {c : Char}
    (other : c.isDigit = false) : c ∉ text := by
  intro member
  rw [digits c member] at other
  cases other

theorem allDigits_append {text more : List Char} (first : AllDigits text)
    (second : AllDigits more) : AllDigits (text ++ more) :=
  fun c member => (List.mem_append.mp member).elim (first c) (second c)

theorem allDigits_zeros (n : Nat) : AllDigits (List.replicate n '0') := by
  intro c member
  rw [List.eq_of_mem_replicate member]
  rfl

theorem allDigits_natText (n : Nat) : AllDigits (natText n) := fun _ => isDigit_of_mem_natText

def pointed (whole fraction : List Char) : List Char :=
  whole ++ if fraction = [] then [] else '.' :: fraction

section
variable {whole fraction : List Char} (digits : AllDigits whole) (behind : AllDigits fraction)
include digits

theorem cut_pointed : cut '.' (pointed whole fraction) = (whole, fraction) := by
  unfold pointed
  split
  · rename_i integral
    rw [List.append_nil, integral]
    exact cut_absent (digits.not_mem rfl)
  · exact cut_append (digits.not_mem rfl) fraction

include behind

theorem not_mem_pointed {c : Char} (other : c.isDigit = false) (apart : c ≠ '.') :
    c ∉ pointed whole fraction := by
  have before := digits.not_mem other
  have after := behind.not_mem other
  unfold pointed
  split <;> simp [before, after, apart]

theorem readValue_pointed : readValue (pointed whole fraction) =
    readDigits 10 (whole ++ fraction) * (10 : ℚ) ^ (0 - fraction.length : Int) := by
  have parts := cut_absent (not_mem_pointed (c := 'e') digits behind rfl (by decide))
  have nothing : readInteger [] = 0 := rfl
  simp only [readValue, parts, cut_pointed digits, nothing]

theorem readValue_scientific (exponent : Int) :
    readValue (pointed whole fraction ++ 'e' :: intText exponent) =
      readDigits 10 (whole ++ fraction) * (10 : ℚ) ^ (exponent - fraction.length) := by
  have parts := cut_append (not_mem_pointed (c := 'e') digits behind rfl (by decide))
    (intText exponent)
  simp only [readValue, parts, cut_pointed digits, readInteger_intText]

end

structure Spells (d : Decimal) (whole fraction : List Char) (exponent : Int) : Prop where
  some : whole ≠ []
  digits : AllDigits whole
  behind : AllDigits fraction
  value : d.value = readDigits 10 (whole ++ fraction) * (10 : ℚ) ^ (exponent - fraction.length)

inductive Written (d : Decimal) : List Char → Prop
  | positional {whole fraction : List Char} (spells : d.Spells whole fraction 0) :
    Written d (pointed whole fraction)
  | scientific {whole fraction : List Char} {exponent : Int}
    (spells : d.Spells whole fraction exponent) :
    Written d (pointed whole fraction ++ 'e' :: intText exponent)

variable {d : Decimal}

/-- Zeros behind the digits of a decimal count for its exponent. -/
theorem value_of_read (zeros : Nat) {whole fraction : List Char} {exponent : Int}
    (read : readDigits 10 (whole ++ fraction) = d.digits * 10 ^ zeros)
    (shift : d.exponent = exponent - fraction.length + zeros) :
    d.value = readDigits 10 (whole ++ fraction) * (10 : ℚ) ^ (exponent - fraction.length) := by
  have same := value_shift d.digits zeros (exponent - fraction.length)
  rw [← shift, ← read] at same
  exact same.symm

theorem spells_split {n : Nat} (some : 0 < n) {exponent : Int}
    (shift : d.exponent = exponent - ((natText d.digits).length - n : Nat)) :
    d.Spells ((natText d.digits).take n) ((natText d.digits).drop n) exponent where
  some := by simp [natText_ne_nil, Nat.pos_iff_ne_zero.mp some]
  digits c member := allDigits_natText d.digits c (List.mem_of_mem_take member)
  behind c member := allDigits_natText d.digits c (List.mem_of_mem_drop member)
  value := by
    apply value_of_read 0
    · rw [List.take_append_drop, readDigits_natText, pow_zero, Nat.mul_one]
    · rw [List.length_drop, shift, Nat.cast_zero, add_zero]

theorem spells_small (k : Nat) (shift : d.exponent = -((k + (natText d.digits).length : Nat) : Int)) :
    d.Spells ['0'] (List.replicate k '0' ++ natText d.digits) 0 where
  some := by simp
  digits := allDigits_zeros 1
  behind := allDigits_append (allDigits_zeros k) (allDigits_natText d.digits)
  value := by
    apply value_of_read 0
    · have lead : ['0'] ++ (List.replicate k '0' ++ natText d.digits) =
          List.replicate (k + 1) '0' ++ natText d.digits := by simp [List.replicate_succ]
      rw [lead, readDigits_append, readDigits_zeros, readDigits_natText]
      simp
    · simp [shift]

theorem spells_large (k : Nat) (shift : d.exponent = k) :
    d.Spells (natText d.digits ++ List.replicate k '0') ['0'] 0 where
  some := by simp [natText_ne_nil]
  digits := allDigits_append (allDigits_natText d.digits) (allDigits_zeros k)
  behind := allDigits_zeros 1
  value := by
    apply value_of_read (k + 1)
    · have trail : natText d.digits ++ List.replicate k '0' ++ ['0'] =
          natText d.digits ++ List.replicate (k + 1) '0' := by simp [List.replicate_succ']
      rw [trail, readDigits_append, readDigits_zeros, readDigits_natText, List.length_replicate,
        Nat.add_zero]
    · simp [shift]

theorem written_positional (d : Decimal) :
    d.Written (positional (natText d.digits) (d.exponent + (natText d.digits).length)) := by
  have some := natText_ne_nil d.digits
  unfold positional
  split
  · rename_i small
    generalize length : (-(d.exponent + (natText d.digits).length)).toNat = k
    have form : ['0', '.'] ++ List.replicate k '0' ++ natText d.digits =
        pointed ['0'] (List.replicate k '0' ++ natText d.digits) := by simp [pointed, some]
    rw [form]
    exact .positional (spells_small k (by omega))
  · split
    · rename_i large long
      generalize length : (d.exponent + (natText d.digits).length).toNat -
        (natText d.digits).length = k
      have form : natText d.digits ++ List.replicate k '0' ++ ['.', '0'] =
          pointed (natText d.digits ++ List.replicate k '0') ['0'] := by simp [pointed]
      rw [form]
      exact .positional (spells_large k (by omega))
    · rename_i large short
      generalize position : (d.exponent + (natText d.digits).length).toNat = n at *
      have form : (natText d.digits).take n ++ ['.'] ++ (natText d.digits).drop n =
          pointed ((natText d.digits).take n) ((natText d.digits).drop n) := by
        simp [pointed, short]
      rw [form]
      exact .positional (spells_split (by omega) (by omega))

theorem written_scientific (d : Decimal) :
    d.Written (scientific (natText d.digits) (d.exponent + (natText d.digits).length)) := by
  have some := List.length_pos_iff.mpr (natText_ne_nil d.digits)
  have form : scientific (natText d.digits) (d.exponent + (natText d.digits).length) =
      pointed ((natText d.digits).take 1) ((natText d.digits).drop 1) ++
        'e' :: intText (d.exponent + (natText d.digits).length - 1) := by
    simp only [scientific, pointed, List.drop_eq_nil_iff, List.append_assoc, List.cons_append,
      List.nil_append]
  rw [form]
  exact .scientific (spells_split Nat.one_pos (by omega))

theorem written_render (style : Style) (d : Decimal) : d.Written (d.render style) := by
  unfold render
  simp only
  split
  · exact written_positional d
  · exact written_scientific d

theorem readValue_render (style : Style) (d : Decimal) : readValue (d.render style) = d.value := by
  have written := written_render style d
  generalize d.render style = text at written
  cases written with
  | positional spells => rw [readValue_pointed spells.digits spells.behind, spells.value]
  | scientific spells => rw [readValue_scientific spells.digits spells.behind, spells.value]

theorem exists_digit_pointed {whole fraction : List Char} (some : whole ≠ [])
    (digits : AllDigits whole) :
    ∃ c more, pointed whole fraction = c :: more ∧ c.isDigit = true := by
  obtain ⟨c, more, rfl⟩ := List.exists_cons_of_ne_nil some
  exact ⟨c, _, rfl, digits c List.mem_cons_self⟩

theorem exists_digit_render (style : Style) (d : Decimal) :
    ∃ c more, d.render style = c :: more ∧ c.isDigit = true := by
  have written := written_render style d
  generalize d.render style = text at written
  cases written with
  | positional spells => exact exists_digit_pointed spells.some spells.digits
  | scientific spells =>
    obtain ⟨c, more, begins, digit⟩ := exists_digit_pointed spells.some spells.digits
    exact ⟨c, _, by rw [begins, List.cons_append], digit⟩

theorem not_mem_render {c : Char} (other : c.isDigit = false) (apart : c ∉ ['.', 'e', '-'])
    (style : Style) (d : Decimal) : c ∉ d.render style := by
  simp only [List.mem_cons, List.not_mem_nil, or_false, not_or] at apart
  have written := written_render style d
  generalize d.render style = text at written
  cases written with
  | positional spells => exact not_mem_pointed spells.digits spells.behind other apart.1
  | scientific spells =>
    have before := not_mem_pointed spells.digits spells.behind other apart.1
    simp [before, apart.2.1, not_mem_intText other apart.2.2]

end Decimal
namespace Binary64
open Decimal
variable {x y : Binary64}

theorem eq_of_magnitude (sign : x.isNegative = y.isNegative) (same : x.magnitude = y.magnitude) :
    x = y := by
  have small := x.bits.toNat_lt
  have small' := y.bits.toNat_lt
  have bits : x.bits.toNat = y.bits.toNat := by
    simp only [isNegative, decide_eq_decide] at sign
    simp only [magnitude, signWeight] at same sign
    omega
  obtain ⟨bits⟩ := x
  obtain ⟨bits'⟩ := y
  exact congrArg mk (UInt64.toNat_inj.mp bits)

def unsigned (x : Binary64) : List Char :=
  if x.isInfinite then ['i', 'n', 'f']
  else if x.isZero then ['0', '.', '0']
  else (shortest x).render style

theorem render_nan (kind : x.isNaN = true) : x.render = ['N', 'a', 'N'] := if_pos kind

theorem render_eq (number : x.isNaN = false) :
    x.render = (if x.isNegative then ['-'] else []) ++ x.unsigned := by
  unfold render unsigned
  simp only [number, Bool.false_eq_true, ↓reduceIte]

theorem exists_head_unsigned (x : Binary64) : ∃ c more, x.unsigned = c :: more ∧
    c.isDigit = !x.isInfinite ∧ c ≠ '-' ∧ c ≠ 'N' := by
  unfold unsigned
  cases infinite : x.isInfinite with
  | true => exact ⟨'i', ['n', 'f'], rfl, rfl, by decide, by decide⟩
  | false =>
    cases x.isZero with
    | true => exact ⟨'0', ['.', '0'], rfl, rfl, by decide, by decide⟩
    | false =>
      obtain ⟨c, more, begins, digit⟩ := exists_digit_render style (shortest x)
      refine ⟨c, more, begins, digit, ?_, ?_⟩
      · rintro rfl
        cases digit
      · rintro rfl
        cases digit

theorem readValue_unsigned (finite : x.isInfinite = false) :
    readValue x.unsigned = if x.isZero then 0 else (shortest x).value := by
  unfold unsigned
  simp only [finite, Bool.false_eq_true, ↓reduceIte]
  split
  · have digit : AllDigits ['0'] := allDigits_zeros 1
    have spelled := readValue_pointed digit digit
    have zero : Reading.readDigits 10 (['0'] ++ ['0']) = 0 := rfl
    rw [zero, Nat.cast_zero, zero_mul] at spelled
    exact spelled
  · exact readValue_render style (shortest x)

theorem value_shortest_pos (nonzero : x.magnitude ≠ 0) : 0 < (shortest x).value :=
  value_pos_of_readsBack nonzero (readsBack_shortest nonzero)

theorem magnitude_eq_of_unsigned (same : x.unsigned = y.unsigned) :
    x.magnitude = y.magnitude := by
  obtain ⟨c, more, begins, kind, _⟩ := x.exists_head_unsigned
  obtain ⟨d, more', begins', kind', _⟩ := y.exists_head_unsigned
  have head : c = d := (List.cons.inj (begins.symm.trans (same.trans begins'))).1
  have both : x.isInfinite = y.isInfinite := by
    rw [← Bool.not_inj_iff, ← kind, ← kind', head]
  cases infinite : x.isInfinite with
  | true =>
    have infinite' := both.symm.trans infinite
    simp only [isInfinite, decide_eq_true_eq] at infinite infinite'
    rw [infinite, infinite']
  | false =>
    have values := congrArg readValue same
    rw [readValue_unsigned infinite, readValue_unsigned (both.symm.trans infinite)] at values
    simp only [isZero, decide_eq_true_eq] at values
    split at values <;> split at values
    · rename_i zero zero'
      rw [zero, zero']
    · rename_i zero nonzero
      exact absurd values (ne_of_lt (value_shortest_pos nonzero))
    · rename_i nonzero zero
      exact absurd values (ne_of_gt (value_shortest_pos nonzero))
    · rename_i nonzero nonzero'
      exact magnitude_eq_of_readsBack (readsBack_shortest nonzero) (readsBack_shortest nonzero')
        values

theorem exists_head_render (number : x.isNaN = false) :
    ∃ c more, x.render = c :: more ∧ c ≠ 'N' := by
  obtain ⟨c, more, begins, _, _, apart⟩ := x.exists_head_unsigned
  rw [render_eq number, begins]
  cases x.isNegative with
  | true => exact ⟨'-', c :: more, rfl, by decide⟩
  | false => exact ⟨c, more, rfl, apart⟩

theorem eq_of_render (number : x.isNaN = false) (number' : y.isNaN = false)
    (same : x.render = y.render) : x = y := by
  obtain ⟨c, more, begins, _, plain, _⟩ := x.exists_head_unsigned
  obtain ⟨d, more', begins', _, plain', _⟩ := y.exists_head_unsigned
  rw [render_eq number, render_eq number'] at same
  cases sign : x.isNegative <;> cases sign' : y.isNegative <;> rw [sign, sign'] at same
  · exact eq_of_magnitude (sign.trans sign'.symm) (magnitude_eq_of_unsigned same)
  · rw [begins] at same
    exact absurd (List.cons.inj same).1 plain
  · rw [begins'] at same
    exact absurd (List.cons.inj same).1.symm plain'
  · exact eq_of_magnitude (sign.trans sign'.symm)
      (magnitude_eq_of_unsigned (List.cons.inj same).2)

theorem render_eq_iff (x y : Binary64) :
    x.render = y.render ↔ x = y ∨ x.isNaN = true ∧ y.isNaN = true := by
  constructor
  · intro same
    cases kind : x.isNaN <;> cases kind' : y.isNaN
    · exact Or.inl (eq_of_render kind kind' same)
    · obtain ⟨c, more, begins, apart⟩ := exists_head_render kind
      rw [render_nan kind', begins] at same
      exact absurd (List.cons.inj same).1 apart
    · obtain ⟨c, more, begins, apart⟩ := exists_head_render kind'
      rw [render_nan kind, begins] at same
      exact absurd (List.cons.inj same).1.symm apart
    · exact Or.inr ⟨rfl, rfl⟩
  · rintro (rfl | ⟨kind, kind'⟩)
    · rfl
    · rw [render_nan kind, render_nan kind']

theorem not_mem_render (x : Binary64) : ')' ∉ x.render := by
  have decimal := Decimal.not_mem_render (c := ')') rfl (by decide) style (shortest x)
  have plain : ')' ∉ x.unsigned := by
    unfold unsigned
    split
    · decide
    · split
      · decide
      · exact decimal
  cases kind : x.isNaN with
  | true =>
    rw [render_nan kind]
    decide
  | false =>
    rw [render_eq kind]
    cases x.isNegative <;> simp [plain]

end Binary64
end TrackedValues
