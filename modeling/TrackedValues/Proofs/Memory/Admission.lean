import TrackedValues.Proofs.Memory.Pool

/-!
Admission. A request is granted exactly when every tracker on its way has room for it and the base
allocator accepts it. A granted request raises every tracker on its way by its bytes and no tracker
above its limit; a refused one leaves all trackers, and every live block, as they were.
-/
namespace TrackedValues

/-- No limit is set, or the new total is a word that does not exceed it. -/
def Tracker.HasRoom (t : Tracker) (extra : Nat) : Prop :=
  t.limit = none ∨ ∃ limit, t.limit = some limit ∧
    t.stats.liveBytes + extra ≤ limit ∧ t.stats.liveBytes + extra ≤ wordMax

theorem Tracker.admits_iff (t : Tracker) (extra : Nat) : t.Admits extra ↔ t.HasRoom extra := by
  unfold Admits HasRoom
  cases t.limit with
  | none => simp
  | some limit => simp [And.comm]

namespace Heap

theorem requestThrough_isSome_iff (h : Heap) (r : Request) (chain : List TrackerId) :
    (h.requestThrough r chain).1.isSome ↔
      (∀ t ∈ chain, (h.tracker t).Admits r.extra) ∧ h.base.accepts h.asked r = true := by
  induction chain with
  | nil =>
    unfold requestThrough
    split <;> simp_all
  | cons outer inner ih =>
    simp only [requestThrough, List.mem_cons, forall_eq_or_imp, and_assoc]
    by_cases admitted : (h.tracker outer).Admits r.extra
    · rw [if_pos admitted, ← ih]
      split <;> simp_all
    · simp [admitted]

theorem requestThrough_refused {h h' : Heap} {r : Request} {chain : List TrackerId}
    (refused : h.requestThrough r chain = (none, h')) :
    h' = h ∨ h.base.accepts h.asked r = false ∧ h' = { h with asked := h.asked + 1 } := by
  induction chain generalizing h' with
  | nil =>
    simp only [requestThrough, Prod.mk.injEq] at refused
    obtain ⟨answer, after⟩ := refused
    refine Or.inr ⟨?_, after.symm⟩
    by_contra accepted
    simp [accepted] at answer
  | cons outer inner ih =>
    unfold requestThrough at refused
    split at refused
    · split at refused
      · simp at refused
      · rename_i h'' found
        obtain rfl : h'' = h' := by simpa using refused
        exact ih found
    · obtain rfl : h = h' := by simpa using refused
      exact Or.inl rfl

/-- How a heap on which some blocks are live answers a request. -/
structure AdmitsExactly (h : Heap) (blocks : List Holding) (a : Allocator) (r : Request) :
    Prop where
  granted_iff : (h.request a r).1.isSome ↔
    (∀ t ∈ a.chain, (h.tracker t).HasRoom r.extra) ∧ h.base.accepts h.asked r = true
  gains : (h.request a r).1.isSome → ∀ t ∈ a.chain,
    ((h.request a r).2.tracker t).stats.liveBytes = (h.tracker t).stats.liveBytes + r.extra ∧
      ((h.request a r).2.tracker t).limit = (h.tracker t).limit ∧
      ∀ limit ∈ (h.tracker t).limit, ((h.request a r).2.tracker t).stats.liveBytes ≤ limit
  traceless : (h.request a r).1 = none →
    ∀ t, (h.request a r).2.tracker t = h.tracker t
  unmoved : (h.request a r).1 = none →
    (h.request a r).2 = h ∨ h.base.accepts h.asked r = false
  still_live : (h.request a r).1 = none → (h.request a r).2.Accounts blocks ∧
    ∀ b others, blocks.Perm (b :: others) →
      ((h.request a r).2.release b.allocator b.size).Accounts others
  lowered : ∀ t ∈ a.chain, ∀ limit ∈ (h.tracker t).limit,
    limit < (h.tracker t).stats.liveBytes → (h.request a r).1 = none

theorem admitsExactly {h : Heap} {blocks : List Holding} (accounts : h.Accounts blocks)
    (a : Allocator) (r : Request) : h.AdmitsExactly blocks a r := by
  have granted_iff := h.requestThrough_isSome_iff r a.chain
  have traceless : (h.request a r).1 = none →
      ∀ t, (h.request a r).2.tracker t = h.tracker t := fun refused t =>
    tracker_refused (Prod.ext refused rfl) t
  constructor
  · simp only [← Tracker.admits_iff]
    exact granted_iff
  · intro granted t tracked
    obtain ⟨block, found⟩ := Option.isSome_iff_exists.mp granted
    have answer : h.requestThrough r a.chain = (some block, (h.request a r).2) :=
      Prod.ext found rfl
    have after := tracker_granted a.nodup answer t
    rw [if_pos tracked] at after
    have admitted := (granted_iff.mp granted).1 t tracked
    have live : ((h.tracker t).grant r).stats.liveBytes =
      (h.tracker t).stats.liveBytes + r.extra := Stats.granted_liveBytes _ r
    rw [after, live]
    exact ⟨rfl, rfl, fun limit set => (admitted limit set).2⟩
  · exact traceless
  · intro refused
    exact (requestThrough_refused (Prod.ext refused rfl)).imp id And.left
  · intro refused
    have after : (h.request a r).2.Accounts blocks :=
      accounts_frame accounts fun t => by rw [traceless refused t]
    exact ⟨after, fun b others live => accounts_release (accounts_perm after live)⟩
  · intro t tracked limit set below
    by_contra granted
    have some := Option.isSome_iff_ne_none.mpr granted
    have admitted := (granted_iff.mp some).1 t tracked limit set
    omega

end Heap

namespace Pool
variable {H : Type}

/-- The limit of a tracker after an action: the one that is set, or the one before. -/
def Action.limitAfter (t : TrackerId) (limit : Option Nat) : Action H → Option Nat
  | .setLimit u new => if t = u then new else limit
  | _ => limit

/-- The limit that was set last; there is none before one is set. -/
def lastLimit (t : TrackerId) (actions : List (Action H)) : Option Nat :=
  actions.foldl (Action.limitAfter t) none

theorem limit_perform (handle : H → Allocator) (p : Pool) (action : Action H) (t : TrackerId) :
    ((p.perform handle action).now.heap.tracker t).limit =
      action.limitAfter t (p.now.heap.tracker t).limit := by
  cases action with
  | allocate through size =>
    have requested := p.now.heap.limit_request (handle through) (.fresh size) t
    simp only [perform, allocate]
    split
    all_goals
      rename_i answer
      rw [answer] at requested
      exact requested
  | grow n more =>
    simp only [perform, grow]
    split
    · rfl
    · rename_i b _
      have requested := p.now.heap.limit_request b.allocator (.grow b.size (b.size + more)) t
      split
      all_goals
        rename_i answer
        rw [answer] at requested
        exact requested
  | deallocate n =>
    simp only [perform, deallocate]
    split
    · rfl
    · exact p.now.heap.limit_release _ _ t
  | replace n size =>
    simp only [perform, replace]
    split
    · rfl
    · rename_i b _
      have replaced := p.now.heap.limit_replace b.allocator b.size size t
      split
      all_goals
        rename_i answer
        rw [answer] at replaced
        exact replaced
  | setLimit u limit => exact p.now.heap.limit_setLimit u t limit

theorem limit_run (handle : H → Allocator) (base : Base) (actions : List (Action H))
    (t : TrackerId) :
    ((run handle base actions).now.heap.tracker t).limit = lastLimit t actions := by
  suffices from_here : ∀ p : Pool, ((actions.foldl (perform handle) p).now.heap.tracker t).limit =
      actions.foldl (Action.limitAfter t) (p.now.heap.tracker t).limit from from_here (start base)
  induction actions with
  | nil => exact fun _ => rfl
  | cons action more ih =>
    intro p
    rw [List.foldl_cons, List.foldl_cons, ih, limit_perform]

/--
After any run of blocks and limits through any handles, every request is admitted exactly: on any
handle, for a fresh block as for a longer one in place of a live block. The limit of each tracker is
the one that was set last.
-/
theorem run_admits_exactly (base : Base) (actions : List (Action Allocator)) (a : Allocator)
    (r : Request) :
    (run id base actions).now.heap.AdmitsExactly (run id base actions).now.blocks a r ∧
      ∀ t, ((run id base actions).now.heap.tracker t).limit = lastLimit t actions :=
  ⟨Heap.admitsExactly (run_accounts_blocks id base actions) a r, limit_run id base actions⟩

end Pool
end TrackedValues
