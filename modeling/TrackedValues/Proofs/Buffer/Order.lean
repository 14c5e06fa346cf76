import TrackedValues.Buffer.Views

/-!
The order of byte strings is lexicographic and total. Two byte strings compare the other way round
when they change places, comparing is transitive, and a proper initial part is less.
-/
namespace TrackedValues

theorem orderBytes_cons (x y : UInt8) (xs ys : List UInt8) :
    orderBytes (x :: xs) (y :: ys) = (compare x y).then (orderBytes xs ys) := by
  simp only [orderBytes, compare, compareOfLessAndEq]
  by_cases less : x < y
  · simp [less, Ordering.then]
  · by_cases same : x = y
    · subst same
      simp [Ordering.then]
    · have more : y < x := by
        rcases UInt8.lt_or_lt_of_ne same with h | h
        · exact absurd h less
        · exact h
      simp [less, same, more, Ordering.then]

theorem orderBytes_swap (xs ys : List UInt8) : orderBytes ys xs = (orderBytes xs ys).swap := by
  induction xs generalizing ys with
  | nil => cases ys <;> rfl
  | cons x xs ih =>
    cases ys with
    | nil => rfl
    | cons y ys =>
      have turned : compare y x = (compare x y).swap := Std.OrientedCmp.eq_swap
      rw [orderBytes_cons, orderBytes_cons, Ordering.swap_then, ih, turned]

theorem orderBytes_lt_trans {xs ys zs : List UInt8} (first : orderBytes xs ys = .lt)
    (second : orderBytes ys zs = .lt) : orderBytes xs zs = .lt := by
  induction xs generalizing ys zs with
  | nil =>
    cases zs with
    | nil => cases ys <;> simp [orderBytes] at first second
    | cons z zs => rfl
  | cons x xs ih =>
    cases ys with
    | nil => simp [orderBytes] at first
    | cons y ys =>
      cases zs with
      | nil => simp [orderBytes] at second
      | cons z zs =>
        rw [orderBytes_cons, Ordering.then_eq_lt] at *
        rcases first with less | ⟨same, less⟩
        · rcases second with later | ⟨equal, _⟩
          · exact Or.inl (Std.TransCmp.lt_trans less later)
          · exact Or.inl (Std.TransCmp.congr_right equal ▸ less)
        · rw [Std.TransCmp.congr_left same]
          exact second.imp id (And.imp_right (ih less))

theorem orderBytes_lt_iff (xs ys : List UInt8) :
    orderBytes xs ys = .lt ↔ List.Lex (· < ·) xs ys := by
  induction xs generalizing ys with
  | nil => cases ys <;> simp [orderBytes]
  | cons x xs ih =>
    cases ys with
    | nil => simp [orderBytes]
    | cons y ys =>
      rw [List.cons_lex_cons_iff, orderBytes]
      by_cases less : x < y
      · simp [less]
      · by_cases more : y < x
        · simp [less, more, (UInt8.ne_of_lt more).symm]
        · have same : x = y := UInt8.le_antisymm (UInt8.not_lt.mp more) (UInt8.not_lt.mp less)
          simp [same, ih]

theorem orderBytes_gt_iff (xs ys : List UInt8) :
    orderBytes xs ys = .gt ↔ List.Lex (· < ·) ys xs := by
  rw [← orderBytes_lt_iff, orderBytes_swap xs ys]
  cases orderBytes xs ys <;> decide

theorem orderBytes_prefix {xs ys : List UInt8} (initial : xs <+: ys) (proper : xs ≠ ys) :
    orderBytes xs ys = .lt := by
  obtain ⟨rest, rfl⟩ := initial
  induction xs with
  | nil =>
    cases rest with
    | nil => exact absurd rfl proper
    | cons y ys => rfl
  | cons x xs ih =>
    have proper' : xs ≠ xs ++ rest := fun same => proper (congrArg (x :: ·) same)
    simpa [orderBytes] using ih proper'

theorem orderBytes_le_trans {xs ys zs : List UInt8} (first : (orderBytes xs ys).isLE)
    (second : (orderBytes ys zs).isLE) : (orderBytes xs zs).isLE := by
  rw [Ordering.isLE_iff_eq_lt_or_eq_eq] at *
  rcases first with less | equal
  · rcases second with later | equal
    · exact Or.inl (orderBytes_lt_trans less later)
    · exact Or.inl ((orderBytes_eq_iff ys zs).mp equal ▸ less)
  · rw [(orderBytes_eq_iff xs ys).mp equal]
    exact second

end TrackedValues
