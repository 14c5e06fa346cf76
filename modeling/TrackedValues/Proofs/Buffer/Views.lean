import TrackedValues.Buffer.Views
import TrackedValues.Proofs.Text.Decoding

/-!
The text views of a buffer. Whatever bytes a buffer holds, the lossy view shows the text that the
strict view finds and one replacement character for each fault, and showing it again changes
nothing.
-/
namespace TrackedValues.TextBuffer
open Utf8 (MaximalSubpart Begins decode encode lossy replacement)

/--
If the strict view finds text, the lossy view shows that text, and the content is its encoding. If
it stops at a fault, the lossy view shows the text before the fault, one replacement character for
the maximal subpart at the fault, and what it shows of the bytes behind; nothing is behind a fault
without a length, at which the content ends inside an encoding.
-/
theorem views_agree (b : TextBuffer) :
    (∀ text, b.text = .ok text → b.display = text ∧ encode text = b.content) ∧
    (∀ k n, b.text = .error ⟨k, some n⟩ →
      ∃ text, decode (b.content.take k) = .ok text ∧ MaximalSubpart (b.content.drop k) n ∧
        b.display = text ++ replacement :: lossy (b.content.drop (k + n))) ∧
    (∀ k, b.text = .error ⟨k, none⟩ →
      ∃ text, decode (b.content.take k) = .ok text ∧
        MaximalSubpart (b.content.drop k) (b.content.length - k) ∧ Begins (b.content.drop k) ∧
        b.display = text ++ [replacement]) ∧
    (encode b.display = b.content ↔ ∃ text, b.text = .ok text) ∧
    (∀ d : TextBuffer, d.content = encode b.display →
      d.text = .ok b.display ∧ d.display = b.display) := by
  refine ⟨?_, ?_, ?_, ⟨?_, ?_⟩, ?_⟩
  · intro text valid
    obtain ⟨encoded, shown⟩ := Utf8.decode_ok valid
    exact ⟨shown, encoded⟩
  · intro k n faulty
    obtain ⟨text, width, valid, part, ⟨named, -⟩ | ⟨named, -⟩, shown⟩ := Utf8.decode_error faulty
    · obtain rfl := Option.some.inj named
      exact ⟨text, valid, part, shown⟩
    · cases named
  · intro k faulty
    obtain ⟨text, width, valid, part, ⟨named, -⟩ | ⟨-, begins⟩, shown⟩ := Utf8.decode_error faulty
    · cases named
    have last : width = (b.content.drop k).length := part.width_of_begins begins
    rw [List.length_drop] at last
    refine ⟨text, valid, last ▸ part, begins, ?_⟩
    -- The subpart ends where the content ends.
    have ended : b.content.drop (k + width) = [] := List.drop_eq_nil_of_le (by omega)
    exact shown.trans (by rw [ended]; rfl)
  · intro same
    refine ⟨b.display, ?_⟩
    rw [text, ← same, Utf8.decode_encode]
  · rintro ⟨text, valid⟩
    obtain ⟨encoded, shown⟩ := Utf8.decode_ok valid
    rw [display, shown, encoded]
  · intro d filled
    have valid : d.text = .ok b.display := by rw [text, filled, Utf8.decode_encode]
    exact ⟨valid, (Utf8.decode_ok valid).2⟩

/-- A lead byte without its trailing byte, in the middle and at the end. -/
example :
    decode [0x6F, 0xE2, 0x82, 0x6B, 0xC3] = .error ⟨1, some 2⟩ ∧
      lossy [0x6F, 0xE2, 0x82, 0x6B, 0xC3] = ['o', replacement, 'k', replacement] :=
  ⟨rfl, rfl⟩

end TrackedValues.TextBuffer
