import Mathlib.Algebra.Order.Ring.Nat
import Mathlib.Tactic.Ring
import TrackedValues.Text.Quoted

/-!
Numerals are read back. A numeral is made of digits, its digits give the number again, and it ends
where something other than a digit stands; so a text of numerals can be taken apart in one way only.
-/
namespace TrackedValues.Reading

def cut (stop : Char) : List Char → List Char × List Char
  | [] => ([], [])
  | c :: rest => if c = stop then ([], rest) else (c :: (cut stop rest).1, (cut stop rest).2)

theorem cut_append {stop : Char} {text : List Char} (absent : stop ∉ text) (rest : List Char) :
    cut stop (text ++ stop :: rest) = (text, rest) := by
  induction text with
  | nil => simp [cut]
  | cons c text ih =>
    obtain ⟨other, absent⟩ := not_or.mp fun member => absent (List.mem_cons.mpr member)
    rw [List.cons_append, cut, if_neg (Ne.symm other), ih absent]

theorem cut_absent {stop : Char} {text : List Char} (absent : stop ∉ text) :
    cut stop text = (text, []) := by
  induction text with
  | nil => rfl
  | cons c text ih =>
    obtain ⟨other, absent⟩ := not_or.mp fun member => absent (List.mem_cons.mpr member)
    rw [cut, if_neg (Ne.symm other), ih absent]

theorem eq_of_append_stop {stop : Char} {text other rest behind : List Char}
    (absent : stop ∉ text) (absent' : stop ∉ other)
    (same : text ++ stop :: rest = other ++ stop :: behind) : text = other ∧ rest = behind := by
  have cuts := congrArg (cut stop) same
  rw [cut_append absent, cut_append absent'] at cuts
  exact Prod.mk.inj cuts

def digitValue (c : Char) : Nat := if c ≤ '9' then c.toNat - 48 else c.toNat - 87

def readDigits (base : Nat) (text : List Char) : Nat :=
  text.foldl (fun n c => base * n + digitValue c) 0

theorem digitValue_digitChar {d : Nat} (digit : d < 16) : digitValue (Nat.digitChar d) = d := by
  revert d
  decide

theorem readDigits_append (base : Nat) (text more : List Char) :
    readDigits base (text ++ more) =
      readDigits base text * base ^ more.length + readDigits base more := by
  have started : ∀ start, more.foldl (fun n c => base * n + digitValue c) start =
      start * base ^ more.length + readDigits base more := by
    induction more with
    | nil => simp [readDigits]
    | cons c more ih =>
      intro start
      simp only [readDigits, List.foldl_cons, List.length_cons, pow_succ] at ih ⊢
      rw [ih (base * start + digitValue c), ih (base * 0 + digitValue c)]
      ring
  rw [readDigits, List.foldl_append, started]
  rfl

theorem readDigits_zeros (base n : Nat) : readDigits base (List.replicate n '0') = 0 := by
  induction n with
  | zero => rfl
  | succ n ih =>
    rw [List.replicate_succ', readDigits_append, ih, Nat.zero_mul]
    rfl

theorem readDigits_toDigits {base : Nat} (least : 1 < base) (most : base ≤ 16) (n : Nat) :
    readDigits base (Nat.toDigits base n) = n := by
  induction n using Nat.strongRecOn with
  | ind n ih =>
    rw [Nat.toDigits_eq_if least]
    split
    · rename_i single
      have digit := digitValue_digitChar (Nat.lt_of_lt_of_le single most)
      simp [readDigits, digit]
    · rename_i longer
      have fewer : n / base < n := Nat.div_lt_self (by omega) least
      have last : n % base < 16 := Nat.lt_of_lt_of_le (Nat.mod_lt n (by omega)) most
      rw [readDigits_append, ih _ fewer]
      simp only [readDigits, List.foldl_cons, List.foldl_nil, digitValue_digitChar last,
        List.length_singleton, pow_one, Nat.mul_zero, Nat.zero_add]
      exact Nat.div_add_mod' n base

theorem exists_digit_of_mem {base : Nat} (least : 1 < base) {n : Nat} {c : Char}
    (member : c ∈ Nat.toDigits base n) : ∃ d < base, c = Nat.digitChar d := by
  induction n using Nat.strongRecOn with
  | ind n ih =>
    rw [Nat.toDigits_eq_if least] at member
    split at member
    · rename_i single
      exact ⟨n, single, List.mem_singleton.mp member⟩
    · rename_i longer
      rcases List.mem_append.mp member with first | last
      · exact ih (n / base) (Nat.div_lt_self (by omega) least) first
      · exact ⟨n % base, Nat.mod_lt n (by omega), List.mem_singleton.mp last⟩

theorem readDigits_natText (n : Nat) : readDigits 10 (natText n) = n :=
  readDigits_toDigits (by decide) (by decide) n

theorem natText_ne_nil (n : Nat) : natText n ≠ [] := Nat.toDigits_ne_nil

theorem isDigit_of_mem_natText {n : Nat} {c : Char} (member : c ∈ natText n) : c.isDigit = true :=
  Nat.isDigit_of_mem_toDigits (by decide) (by decide) member

theorem not_mem_natText {c : Char} (other : c.isDigit = false) (n : Nat) : c ∉ natText n := by
  intro member
  rw [isDigit_of_mem_natText member] at other
  cases other

theorem natText_injective {n k : Nat} (same : natText n = natText k) : n = k := by
  rw [← readDigits_natText n, same, readDigits_natText]

theorem readDigits_hexText (n : Nat) : readDigits 16 (hexText n) = n :=
  readDigits_toDigits (by decide) (by decide) n

theorem not_mem_hexText {c : Char} (other : ∀ d < 16, c ≠ Nat.digitChar d) (n : Nat) :
    c ∉ hexText n := by
  intro member
  obtain ⟨d, digit, same⟩ := exists_digit_of_mem (by decide) member
  exact other d digit same

def readInteger : List Char → Int
  | '-' :: digits => -(readDigits 10 digits : Int)
  | digits => readDigits 10 digits

theorem readInteger_natText (n : Nat) : readInteger (natText n) = n := by
  unfold readInteger
  split
  · rename_i digits signed
    have minus : '-' ∈ natText n := by simp [signed]
    exact absurd minus (not_mem_natText rfl n)
  · rw [readDigits_natText]

theorem readInteger_intText (n : Int) : readInteger (intText n) = n := by
  unfold intText signText
  split
  · rename_i negative
    change -(readDigits 10 (natText n.natAbs) : Int) = n
    rw [readDigits_natText]
    omega
  · rename_i positive
    rw [List.nil_append, readInteger_natText]
    omega

theorem intText_injective {n k : Int} (same : intText n = intText k) : n = k := by
  rw [← readInteger_intText n, same, readInteger_intText]

theorem not_mem_intText {c : Char} (other : c.isDigit = false) (unsigned : c ≠ '-') (n : Int) :
    c ∉ intText n := by
  unfold intText signText
  split
  · simpa using ⟨unsigned, not_mem_natText other _⟩
  · exact not_mem_natText other _

/-- Texts in a row can be told apart when none of them is empty or has the mark between them. -/
theorem separated_injective {mark : Char} {space : List Char} {texts others : List (List Char)}
    (clean : ∀ t ∈ texts, t ≠ [] ∧ mark ∉ t) (clean' : ∀ t ∈ others, t ≠ [] ∧ mark ∉ t)
    (same : separated (mark :: space) texts = separated (mark :: space) others) :
    texts = others := by
  induction texts generalizing others with
  | nil =>
    cases others with
    | nil => rfl
    | cons t more =>
      rw [separated_cons] at same
      exact absurd (List.append_eq_nil_iff.mp same.symm).1 (clean' t List.mem_cons_self).1
  | cons t more ih =>
    obtain ⟨some, absent⟩ := clean t List.mem_cons_self
    cases others with
    | nil =>
      rw [separated_cons] at same
      exact absurd (List.append_eq_nil_iff.mp same).1 some
    | cons u further =>
      obtain ⟨_, absent'⟩ := clean' u List.mem_cons_self
      cases more with
      | nil =>
        cases further with
        | nil => exact congrArg (fun t => [t]) same
        | cons v further =>
          have longer : t = u ++ mark :: (space ++ separated (mark :: space) (v :: further)) := by
            simpa [separated] using same
          exact absurd (by simp [longer]) absent
      | cons v more =>
        cases further with
        | nil =>
          have longer : u = t ++ mark :: (space ++ separated (mark :: space) (v :: more)) := by
            simpa [separated] using same.symm
          exact absurd (by simp [longer]) absent'
        | cons w further =>
          simp only [separated, List.append_assoc, List.cons_append] at same
          obtain ⟨rfl, rest⟩ := eq_of_append_stop absent absent' same
          have rows := List.append_cancel_left rest
          rw [ih (fun x member => clean x (List.mem_cons_of_mem t member))
            (fun x member => clean' x (List.mem_cons_of_mem t member)) rows]

end TrackedValues.Reading
