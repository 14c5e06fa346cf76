import TrackedValues.Proofs.Memory.Holdings

/-!
What work on a machine has obtained. Nothing is assumed of the machine on which the work begins:
its trackers may show anything. Compared with it, later machines show the blocks that were obtained
since then and are still held; whatever else was obtained has been returned, block by block.
-/
namespace TrackedValues.Machine

structure Obtains (m : Machine) (held : List Holding) (m' : Machine) : Prop where
  limit : ∀ t, (m'.heap.tracker t).limit = (m.heap.tracker t).limit
  bytes : ∀ t, (m'.heap.tracker t).stats.liveBytes =
    (m.heap.tracker t).stats.liveBytes + Holding.bytes t held
  reallocations : ∀ t, (m'.heap.tracker t).stats.reallocations =
    (m.heap.tracker t).stats.reallocations
  returned : ∀ t, ∃ n,
    (m'.heap.tracker t).stats.allocations =
      (m.heap.tracker t).stats.allocations + n + Holding.count t held ∧
    (m'.heap.tracker t).stats.deallocations = (m.heap.tracker t).stats.deallocations + n

variable {m m' m'' : Machine} {held given : List Holding}

theorem obtains_nothing (m : Machine) : m.Obtains [] m where
  limit _ := rfl
  bytes _ := rfl
  reallocations _ := rfl
  returned _ := ⟨0, rfl, rfl⟩

theorem obtains_frame (obtains : m.Obtains held m')
    (same : ∀ t, m''.heap.tracker t = m'.heap.tracker t) : m.Obtains held m'' := by
  constructor
  · intro t
    rw [same, obtains.limit]
  · intro t
    rw [same, obtains.bytes]
  · intro t
    rw [same, obtains.reallocations]
  · intro t
    rw [same]
    exact obtains.returned t

theorem obtains_perm {others : List Holding} (obtains : m.Obtains held m')
    (perm : held.Perm others) : m.Obtains others m' := by
  constructor
  · exact obtains.limit
  · intro t
    rw [obtains.bytes, Holding.bytes_perm t perm]
  · exact obtains.reallocations
  · intro t
    rw [← Holding.count_perm t perm]
    exact obtains.returned t

theorem obtains_fresh {a : Allocator} {size block : Nat} (obtains : m.Obtains held m')
    (granted : m'.request a (.fresh size) = (some block, m'')) :
    m.Obtains (⟨a, size⟩ :: held) m'' := by
  simp only [request, Prod.mk.injEq] at granted
  have answer : m'.heap.requestThrough (.fresh size) a.chain =
      (some block, (m'.heap.request a (.fresh size)).2) := Prod.ext granted.1 rfl
  have after := Heap.tracker_granted a.nodup answer
  rw [← granted.2]
  constructor <;> intro t
  · rw [after t, ← obtains.limit t]
    split <;> rfl
  · have before := obtains.bytes t
    rw [after t, Holding.bytes_cons]
    by_cases tracked : t ∈ a.chain
    · simp only [tracked, ↓reduceIte, Tracker.grant, Stats.granted, Stats.raisePeak]
      omega
    · simp only [tracked, ↓reduceIte]
      omega
  · rw [after t, ← obtains.reallocations t]
    split <;> rfl
  · obtain ⟨n, fresh, returned⟩ := obtains.returned t
    refine ⟨n, ?_⟩
    rw [after t, Holding.count_cons]
    by_cases tracked : t ∈ a.chain
    · simp only [tracked, ↓reduceIte, Tracker.grant, Stats.granted, Stats.raisePeak]
      omega
    · simp only [tracked, ↓reduceIte]
      omega

theorem obtains_refused {a : Allocator} {r : Request} (obtains : m.Obtains held m')
    (refused : m'.request a r = (none, m'')) : m.Obtains held m'' :=
  obtains_frame obtains (tracker_refused refused)

theorem obtains_release {a : Allocator} {size : Nat}
    (obtains : m.Obtains (⟨a, size⟩ :: held) m') : m.Obtains held (m'.release a size) := by
  have after := Heap.tracker_released m'.heap size a.nodup
  have heap : (m'.release a size).heap = m'.heap.releaseThrough size a.chain := rfl
  constructor <;> intro t <;> rw [heap, after t]
  · rw [← obtains.limit t]
    split <;> rfl
  · have before := obtains.bytes t
    rw [Holding.bytes_cons] at before
    by_cases tracked : t ∈ a.chain
    · simp only [tracked, ↓reduceIte, Tracker.release, Stats.released, Stats.raisePeak] at *
      omega
    · simp only [tracked, ↓reduceIte] at *
      omega
  · rw [← obtains.reallocations t]
    split <;> rfl
  · obtain ⟨n, fresh, returned⟩ := obtains.returned t
    rw [Holding.count_cons] at fresh
    by_cases tracked : t ∈ a.chain
    · refine ⟨n + 1, ?_⟩
      simp only [tracked, ↓reduceIte, Tracker.release, Stats.released, Stats.raisePeak] at *
      omega
    · refine ⟨n, ?_⟩
      simp only [tracked, ↓reduceIte] at *
      omega

theorem obtains_giveBack (obtains : m.Obtains (given ++ held) m') :
    m.Obtains held (m'.giveBack given) := by
  induction given generalizing m' with
  | nil => exact obtains
  | cons h given ih => exact ih (obtains_release obtains)

end TrackedValues.Machine
