import TrackedValues.Buffer.Views
import TrackedValues.Proofs.Text.Decoding
import TrackedValues.Proofs.Text.Numeral

/-!
Quoted text is read back. An escape tells the character that it stands for and where it ends, and
no escape begins with the quote, so the first quote that is not escaped is the end of the text.
-/
namespace TrackedValues.Quoted
open Reading

def meant (letter : Char) : Char :=
  if letter = '0' then '\x00'
  else if letter = 't' then '\t'
  else if letter = 'r' then '\r'
  else if letter = 'n' then '\n'
  else letter

def readEscape : List Char → Option (Char × List Char)
  | [] => none
  | c :: rest =>
    if c = '\\' then
      match rest with
      | [] => none
      | letter :: rest =>
        if letter = 'u' then
          let number := cut '\x7d' rest.tail
          some (Char.ofNat (readDigits 16 number.1), number.2)
        else some (meant letter, rest)
    else some (c, rest)

theorem readEscape_numbered (c : Char) (rest : List Char) :
    readEscape (numbered c ++ rest) = some (c, rest) := by
  have closed : '\x7d' ∉ hexText c.toNat := not_mem_hexText (by decide) _
  have number : cut '\x7d' (hexText c.toNat ++ '\x7d' :: rest) = (hexText c.toNat, rest) :=
    cut_append closed rest
  simp [readEscape, numbered, number, readDigits_hexText, Char.ofNat_toNat]

theorem readEscape_escape (c : Char) (rest : List Char) :
    readEscape (escape c ++ rest) = some (c, rest) := by
  unfold escape
  iterate 7
    split
    · simp [readEscape, meant, *]
  exact readEscape_numbered c rest

theorem exists_head_escape (c : Char) : ∃ first more, escape c = first :: more ∧ first ≠ '"' := by
  unfold escape numbered
  repeat' split
  all_goals first
    | exact ⟨_, _, rfl, by decide⟩
    | exact ⟨_, _, rfl, by assumption⟩

theorem escaped_unique {text other rest behind : List Char}
    (same : text.flatMap escape ++ '"' :: rest = other.flatMap escape ++ '"' :: behind) :
    text = other ∧ rest = behind := by
  induction text generalizing other with
  | nil =>
    cases other with
    | nil => exact ⟨rfl, (List.cons.inj same).2⟩
    | cons c other =>
      obtain ⟨first, more, escaped, unquoted⟩ := exists_head_escape c
      rw [List.flatMap_cons, escaped] at same
      exact absurd (List.cons.inj same).1.symm unquoted
  | cons c text ih =>
    cases other with
    | nil =>
      obtain ⟨first, more, escaped, unquoted⟩ := exists_head_escape c
      rw [List.flatMap_cons, escaped] at same
      exact absurd (List.cons.inj same).1 unquoted
    | cons d other =>
      simp only [List.flatMap_cons, List.append_assoc] at same
      have read := congrArg readEscape same
      rw [readEscape_escape, readEscape_escape] at read
      obtain ⟨rfl, later⟩ := Prod.mk.inj (Option.some.inj read)
      obtain ⟨rfl, ends⟩ := ih later
      exact ⟨rfl, ends⟩

theorem quote_unique {text other rest behind : List Char}
    (same : quote text ++ rest = quote other ++ behind) : text = other ∧ rest = behind := by
  simp only [quote, List.cons_append, List.append_assoc, List.nil_append] at same
  exact escaped_unique (List.cons.inj same).2

end TrackedValues.Quoted

namespace TrackedValues
open Reading

theorem mem_separated {separator : List Char} {texts : List (List Char)} {c : Char}
    (member : c ∈ separated separator texts) : c ∈ separator ∨ ∃ t ∈ texts, c ∈ t := by
  cases texts with
  | nil => cases member
  | cons t more =>
    rw [separated_cons, List.mem_append, List.mem_flatMap] at member
    rcases member with first | ⟨u, later, between⟩
    · exact Or.inr ⟨t, List.mem_cons_self, first⟩
    · rcases List.mem_append.mp between with lead | behind
      · exact Or.inl lead
      · exact Or.inr ⟨u, List.mem_cons_of_mem t later, behind⟩

def byteRow (bytes : List UInt8) : List Char :=
  separated [',', ' '] (bytes.map fun b => natText b.toNat)

theorem not_mem_byteRow (bytes : List UInt8) : ']' ∉ byteRow bytes := by
  intro member
  rcases mem_separated member with between | ⟨t, number, inside⟩
  · revert between
    decide
  · obtain ⟨b, _, rfl⟩ := List.mem_map.mp number
    exact not_mem_natText rfl _ inside

theorem byteRow_injective {bytes others : List UInt8} (same : byteRow bytes = byteRow others) :
    bytes = others := by
  have clean : ∀ bytes : List UInt8, ∀ t ∈ bytes.map fun b => natText b.toNat,
      t ≠ [] ∧ ',' ∉ t := by
    intro bytes t member
    obtain ⟨b, _, rfl⟩ := List.mem_map.mp member
    exact ⟨natText_ne_nil _, not_mem_natText rfl _⟩
  have numbers := separated_injective (clean bytes) (clean others) same
  have apart : ∀ b c : UInt8, natText b.toNat = natText c.toNat → b = c :=
    fun b c same => UInt8.toNat_inj.mp (natText_injective same)
  exact (List.map_inj_right apart).mp numbers

/-- Bytes are told apart whether they are quoted or listed, and so is what follows them. -/
theorem bytesText_unique {bytes others : List UInt8} {rest behind : List Char}
    (same : bytesText bytes ++ rest = bytesText others ++ behind) :
    bytes = others ∧ rest = behind := by
  unfold bytesText at same
  split at same <;> split at same
  · rename_i text decoded _ other decoded'
    obtain ⟨rfl, ends⟩ := Quoted.quote_unique same
    exact ⟨(Utf8.decode_ok decoded).1.symm.trans (Utf8.decode_ok decoded').1, ends⟩
  · simp [Quoted.quote] at same
  · simp [Quoted.quote] at same
  · have rows : byteRow bytes ++ ']' :: rest = byteRow others ++ ']' :: behind := by
      simpa [byteRow] using same
    obtain ⟨row, ends⟩ := eq_of_append_stop (not_mem_byteRow bytes) (not_mem_byteRow others) rows
    exact ⟨byteRow_injective row, ends⟩

end TrackedValues
