import TrackedValues.Proofs.SlotList.Walking
import TrackedValues.SlotList.Iteration

/-!
Cursors over a list that satisfies its invariant. What a cursor has not yielded is an unbroken part
of the sequence, and every step takes one element from one end of it.
-/
namespace TrackedValues.Cursor
open SlotList
variable {α : Type}

/-- The nodes ahead are an unbroken part of the list, and the cursor stands at both ends of it. -/
def Spans (c : Cursor α) (ahead : List (Nat × α)) : Prop :=
  ∃ pre post vacants, Linked c.list (pre ++ ahead ++ post) vacants ∧
    c.remaining = ahead.length ∧
    (ahead ≠ [] → c.front = entry ahead none ∧ c.back = exit none ahead)

def Shows (c : Cursor α) (xs : List α) : Prop := ∃ ahead, Spans c ahead ∧ values ahead = xs

theorem shows_cursor {l : SlotList α} {xs : List α} (holds : Holds l xs) : Shows l.cursor xs := by
  obtain ⟨nodes, vacants, linked, rfl⟩ := holds
  refine ⟨nodes, ⟨[], [], vacants, by simpa [cursor] using linked, ?_, fun _ => ?_⟩, rfl⟩
  · simpa [cursor, places] using linked.len_eq
  · exact ⟨linked.leads.1, linked.trails.1⟩

theorem next_spans {c : Cursor α} {node : Nat × α} {rest : List (Nat × α)}
    (spans : Spans c (node :: rest)) : ∃ c', c.next = .ok (some node.2, c') ∧ Spans c' rest := by
  obtain ⟨pre, post, vacants, linked, remaining, ends⟩ := spans
  obtain ⟨front, back⟩ := ends (List.cons_ne_nil _ _)
  have front : c.front = some node.1 := front
  have left : c.remaining ≠ 0 := by simp [remaining]
  have threaded := linked.leads.2
  rw [List.append_assoc, List.cons_append] at threaded
  refine ⟨{ c with front := entry (rest ++ post) none, remaining := c.remaining - 1 }, ?_, ?_⟩
  · simp only [next, left, ↓reduceIte, front, node_at threaded]
  · refine ⟨pre ++ [node], post, vacants, by simpa using linked, ?_, fun more => ?_⟩
    · simp [remaining]
    · cases rest with
      | nil => exact absurd rfl more
      | cons after later => exact ⟨rfl, back⟩

theorem nextBack_spans {c : Cursor α} {node : Nat × α} {init : List (Nat × α)}
    (spans : Spans c (init ++ [node])) :
    ∃ c', c.nextBack = .ok (some node.2, c') ∧ Spans c' init := by
  obtain ⟨pre, post, vacants, linked, remaining, ends⟩ := spans
  obtain ⟨front, back⟩ := ends (by simp)
  have back : c.back = some node.1 := back.trans (by simp [exit_append, exit])
  have left : c.remaining ≠ 0 := by simp [remaining]
  have threaded : Threaded c.list.slots none ((pre ++ init) ++ node :: post) none := by
    simpa using linked.leads.2
  refine ⟨{ c with back := exit none (pre ++ init), remaining := c.remaining - 1 }, ?_, ?_⟩
  · simp only [nextBack, left, ↓reduceIte, back, node_at threaded]
  · refine ⟨pre, node :: post, vacants, by simpa using linked, ?_, fun more => ?_⟩
    · simp [remaining]
    · rcases init.eq_nil_or_concat with rfl | ⟨before, last, rfl⟩
      · exact absurd rfl more
      · rw [List.concat_eq_append] at *
        refine ⟨?_, by simp [exit_append, exit]⟩
        simp only [entry_append] at front ⊢
        exact front

theorem next_shows {c : Cursor α} {xs : List α} (shows_xs : Shows c xs) :
    ∃ c', c.next = .ok (xs.head?, c') ∧ Shows c' xs.tail := by
  obtain ⟨ahead, spans, rfl⟩ := shows_xs
  cases ahead with
  | nil =>
    obtain ⟨pre, post, vacants, linked, remaining, ends⟩ := spans
    have spent : c.remaining = 0 := remaining
    exact ⟨c, if_pos spent, [], ⟨pre, post, vacants, linked, remaining, ends⟩, rfl⟩
  | cons node rest =>
    obtain ⟨c', yielded, further⟩ := next_spans spans
    exact ⟨c', yielded, rest, further, rfl⟩

theorem nextBack_shows {c : Cursor α} {xs : List α} (shows_xs : Shows c xs) :
    ∃ c', c.nextBack = .ok (xs.getLast?, c') ∧ Shows c' xs.dropLast := by
  obtain ⟨ahead, spans, rfl⟩ := shows_xs
  rcases ahead.eq_nil_or_concat with rfl | ⟨init, node, rfl⟩
  · obtain ⟨pre, post, vacants, linked, remaining, ends⟩ := spans
    have spent : c.remaining = 0 := remaining
    exact ⟨c, if_pos spent, [], ⟨pre, post, vacants, linked, remaining, ends⟩, rfl⟩
  · rw [List.concat_eq_append] at *
    obtain ⟨c', yielded, further⟩ := nextBack_spans spans
    refine ⟨c', ?_, init, further, by simp [values]⟩
    simpa [values] using yielded

theorem remaining_eq {c : Cursor α} {xs : List α} (shows_xs : Shows c xs) :
    c.remaining = xs.length := by
  obtain ⟨ahead, ⟨_, _, _, _, remaining, _⟩, rfl⟩ := shows_xs
  simpa [values] using remaining

theorem toList_eq {c : Cursor α} {xs : List α} (shows_xs : Shows c xs) : c.toList = .ok xs := by
  rw [toList, remaining_eq shows_xs]
  induction xs generalizing c with
  | nil => rfl
  | cons x xs ih =>
    obtain ⟨c', yielded, further⟩ := next_shows shows_xs
    have rest := ih further
    simp only [List.length_cons, take, yielded, List.head?_cons]
    rw [rest]

theorem toListBack_eq {c : Cursor α} {xs : List α} (shows_xs : Shows c xs) :
    c.toListBack = .ok xs.reverse := by
  rw [toListBack, remaining_eq shows_xs]
  induction h : xs.length generalizing c xs with
  | zero =>
    rw [List.length_eq_zero_iff.mp h]
    rfl
  | succ n ih =>
    rcases xs.eq_nil_or_concat with rfl | ⟨init, x, rfl⟩
    · cases h
    · rw [List.concat_eq_append] at *
      obtain ⟨c', yielded, further⟩ := nextBack_shows shows_xs
      rw [List.dropLast_concat] at further
      have rest := ih further (by simpa using h)
      simp only [take, yielded, List.getLast?_concat, rest, List.reverse_append]
      rfl

end TrackedValues.Cursor
