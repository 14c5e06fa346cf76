import TrackedValues.Machine
import TrackedValues.Proofs.Memory.Holdings

/-!
Machines behind a veil. A veil hides the trackers of a machine altogether, or only their limits.
Behind it stands a machine that grants everything. Work that is never refused leads to machines
which are the same behind the veil, whether it was done in front of it or behind it.
-/
namespace TrackedValues

def Event.IsRefusal : Event → Prop
  | bufferRefused _ => True
  | tableRefused _ _ => True
  | _ => False

instance (e : Event) : Decidable e.IsRefusal :=
  match e with
  | .bufferRefused _ => .isTrue trivial
  | .tableRefused _ _ => .isTrue trivial
  | .bufferGrown _ _ _ => .isFalse id
  | .mismatch _ _ => .isFalse id
  | .removed _ _ => .isFalse id

namespace Machine
variable {m m' m'' : Machine}

/-- No refusal has been reported from one machine to a later one. -/
def Unrefused (m m' : Machine) : Prop := ∀ e ∈ m'.eventsAfter m.events.length, ¬e.IsRefusal

theorem eventsAfter_append {fresh : List Event} (grown : m'.events = fresh ++ m.events) :
    m'.eventsAfter m.events.length = fresh.reverse := by
  simp [eventsAfter, grown]

theorem unrefused_iff {fresh : List Event} (grown : m'.events = fresh ++ m.events) :
    m.Unrefused m' ↔ ∀ e ∈ fresh, ¬e.IsRefusal := by
  simp [Unrefused, eventsAfter_append grown]

theorem unrefused_split (first : m.events <:+ m'.events) (second : m'.events <:+ m''.events)
    (unrefused : m.Unrefused m'') : m.Unrefused m' ∧ m'.Unrefused m'' := by
  obtain ⟨earlier, between⟩ := first
  obtain ⟨later, after⟩ := second
  have whole : m''.events = (later ++ earlier) ++ m.events := by
    rw [← after, ← between, List.append_assoc]
  have each := (unrefused_iff whole).mp unrefused
  constructor
  · exact (unrefused_iff between.symm).mpr fun e member => each e (List.mem_append_right _ member)
  · exact (unrefused_iff after.symm).mpr fun e member => each e (List.mem_append_left _ member)

theorem refused_emit {e : Event} (refusal : e.IsRefusal) (same : m'.events = m.events) :
    ¬m.Unrefused (m'.emit e) := by
  intro unrefused
  have grown : (m'.emit e).events = [e] ++ m.events := congrArg (e :: ·) same
  exact (unrefused_iff grown).mp unrefused e List.mem_cons_self refusal

theorem request_events (m : Machine) (a : Allocator) (r : Request) :
    (m.request a r).2.events = m.events := rfl

end Machine

namespace Heap
variable {h h' : Heap} {r : Request} {chain : List TrackerId} {block : Nat}

theorem requestThrough_granted (granted : h.requestThrough r chain = (some block, h')) :
    block = h.asked ∧ h'.asked = h.asked + 1 ∧ h'.base = h.base := by
  induction chain generalizing h' block with
  | nil =>
    simp only [requestThrough, Prod.mk.injEq] at granted
    obtain ⟨accepted, rfl⟩ := granted
    split at accepted
    · cases accepted
      exact ⟨rfl, rfl, rfl⟩
    · cases accepted
  | cons outer inner ih =>
    unfold requestThrough at granted
    split at granted
    · split at granted
      · rename_i block' passed accepted
        cases granted
        obtain ⟨number, asked, base⟩ := ih accepted
        exact ⟨number, asked, base⟩
      · cases granted
    · cases granted

theorem requestThrough_free (accepts : ∀ n r, h.base.accepts n r = true)
    (unlimited : ∀ t, (h.tracker t).limit = none) (r : Request) (chain : List TrackerId) :
    ∃ h', h.requestThrough r chain = (some h.asked, h') := by
  induction chain with
  | nil => exact ⟨_, by rw [requestThrough, accepts, if_pos rfl]⟩
  | cons outer inner ih =>
    obtain ⟨h', granted⟩ := ih
    have admits : (h.tracker outer).Admits r.extra := by
      intro limit member
      rw [unlimited] at member
      cases member
    exact ⟨_, by rw [requestThrough, if_pos admits, granted]⟩

theorem releaseThrough_base (h : Heap) (size : Nat) (chain : List TrackerId) :
    (h.releaseThrough size chain).asked = h.asked ∧
      (h.releaseThrough size chain).base = h.base := by
  induction chain with
  | nil => exact ⟨rfl, rfl⟩
  | cons outer inner ih => exact ih

end Heap

/-- What is hidden: the trackers with all that they count, or the limits of the trackers. -/
inductive Veil
  | trackers
  | limits
  deriving DecidableEq

namespace Veil
variable {V : Veil} {m m' m'' n : Machine}

def handle : Veil → Allocator → Allocator
  | trackers, _ => .base
  | limits, a => a

def counters : Veil → Stats → Stats
  | trackers, _ => {}
  | limits, s => s

theorem slotSize_handle (V : Veil) (a : Allocator) : (V.handle a).slotSize ≤ a.slotSize := by
  cases V with
  | trackers =>
    simp only [handle, Allocator.base, Allocator.slotSize, List.length_nil]
    omega
  | limits => exact Nat.le_refl _

/-- The second machine is the first one behind the veil: it grants all that is asked. -/
structure Hides (V : Veil) (m n : Machine) : Prop where
  events : n.events = m.events
  asked : n.heap.asked = m.heap.asked
  scratch : n.heap.base.scratch = m.heap.base.scratch
  accepts : ∀ k r, n.heap.base.accepts k r = true
  unlimited : ∀ t, (n.heap.tracker t).limit = none
  stats : V = limits → ∀ t, (n.heap.tracker t).stats = (m.heap.tracker t).stats

theorem hides_emit (hides : V.Hides m n) (e : Event) : V.Hides (m.emit e) (n.emit e) :=
  { hides with events := congrArg (e :: ·) hides.events }

theorem hides_setLimit (hides : V.Hides m n) (t : TrackerId) (limit : Option Nat) :
    V.Hides { m with heap := m.heap.setLimit t limit } n := by
  refine { hides with stats := fun same u => (hides.stats same u).trans ?_ }
  rw [Heap.setLimit, Heap.tracker_update]
  split
  · rename_i here
    rw [here]
  · rfl

theorem hides_granted (hides : V.Hides m n) {a : Allocator} {r r' : Request} {block : Nat}
    (sized : V = limits → r' = r) (granted : m.request a r = (some block, m')) :
    ∃ n', n.request (V.handle a) r' = (some block, n') ∧ V.Hides m' n' := by
  simp only [Machine.request, Prod.mk.injEq] at granted
  obtain ⟨answer, rfl⟩ := granted
  have granted : m.heap.requestThrough r a.chain = (some block, (m.heap.request a r).2) :=
    Prod.ext answer rfl
  obtain ⟨h, free⟩ :=
    Heap.requestThrough_free hides.accepts hides.unlimited r' (V.handle a).chain
  obtain ⟨rfl, asked, base⟩ := Heap.requestThrough_granted granted
  obtain ⟨_, asked', base'⟩ := Heap.requestThrough_granted free
  have after := Heap.tracker_granted (V.handle a).nodup free
  refine ⟨{ n with heap := h }, ?_, ?_⟩
  · simp only [Machine.request, Heap.request, free, hides.asked]
  · constructor
    · exact hides.events
    · exact asked'.trans ((congrArg (· + 1) hides.asked).trans asked.symm)
    · dsimp only
      rw [base', base, hides.scratch]
    · dsimp only
      rw [base']
      exact hides.accepts
    · intro t
      rw [after t, ← hides.unlimited t]
      split <;> rfl
    · rintro rfl t
      rw [after t, Heap.tracker_granted a.nodup granted t, sized rfl]
      have before := hides.stats rfl t
      by_cases tracked : t ∈ a.chain
      · simp only [handle, tracked, ↓reduceIte, Tracker.grant, before]
      · simp only [handle, tracked, ↓reduceIte, before]

theorem hides_release (hides : V.Hides m n) {a : Allocator} {size size' : Nat}
    (sized : V = limits → size' = size) :
    V.Hides (m.release a size) (n.release (V.handle a) size') := by
  obtain ⟨asked, base⟩ := m.heap.releaseThrough_base size a.chain
  obtain ⟨asked', base'⟩ := n.heap.releaseThrough_base size' (V.handle a).chain
  have after := n.heap.tracker_released size' (V.handle a).nodup
  constructor
  · exact hides.events
  · exact asked'.trans (hides.asked.trans asked.symm)
  · dsimp only [Machine.release, Heap.release]
    rw [base', base, hides.scratch]
  · dsimp only [Machine.release, Heap.release]
    rw [base']
    exact hides.accepts
  · intro t
    dsimp only [Machine.release, Heap.release]
    rw [after t, ← hides.unlimited t]
    split <;> rfl
  · rintro rfl t
    dsimp only [Machine.release, Heap.release]
    rw [after t, m.heap.tracker_released size a.nodup t, sized rfl]
    have before := hides.stats rfl t
    by_cases tracked : t ∈ a.chain
    · simp only [handle, tracked, ↓reduceIte, Tracker.release, before]
    · simp only [handle, tracked, ↓reduceIte, before]

theorem statsOf_hides (hides : V.Hides m n) (a : Allocator) :
    n.heap.statsOf (V.handle a) = V.counters (m.heap.statsOf a) := by
  cases V with
  | trackers => rfl
  | limits =>
    simp only [handle, counters, Heap.statsOf]
    split
    · rfl
    · exact hides.stats rfl _

variable {α α' β ε ρ σ τ υ : Type}

/--
Work in front of the veil has led from one machine to another. If it was not refused anything, the
same work behind the veil ends as expected, on a machine that is the new one behind the veil.
-/
structure Follows (V : Veil) (m m' : Machine) (work expected : Machine → σ) : Prop where
  grows : m.events <:+ m'.events
  ends : m.Unrefused m' → ∀ n, V.Hides m n → ∃ n', V.Hides m' n' ∧ work n = expected n'

theorem follows_here {work expected : Machine → σ} (same : ∀ n, work n = expected n) :
    V.Follows m m work expected :=
  ⟨List.suffix_refl _, fun _ n hides => ⟨n, hides, same n⟩⟩

theorem follows_emit (V : Veil) (m : Machine) (e : Event) {work expected : Machine → σ}
    (same : ∀ n, work n = expected (n.emit e)) : V.Follows m (m.emit e) work expected where
  grows := List.suffix_cons e _
  ends _ n hides := ⟨n.emit e, hides_emit hides e, same n⟩

/-- One piece of work after another; what is done behind the veil depends on how the first ends. -/
theorem follows_then {first middle : Machine → σ} {second last : Machine → τ} {whole : Machine → τ}
    (start : V.Follows m m' first middle) (rest : V.Follows m' m'' second last)
    (joined : ∀ n n', first n = middle n' → whole n = second n') :
    V.Follows m m'' whole last := by
  constructor
  · exact start.grows.trans rest.grows
  · intro unrefused n hides
    -- A refusal in either part would be a refusal of the whole.
    obtain ⟨early, late⟩ := Machine.unrefused_split start.grows rest.grows unrefused
    obtain ⟨n', hides', same⟩ := start.ends early n hides
    obtain ⟨n'', hides'', same'⟩ := rest.ends late n' hides'
    exact ⟨n'', hides'', (joined n n' same).trans same'⟩

theorem follows_then_then {m₃ : Machine} {first middle : Machine → σ} {second later : Machine → τ}
    {third last whole : Machine → υ} (start : V.Follows m m' first middle)
    (next : V.Follows m' m'' second later) (rest : V.Follows m'' m₃ third last)
    (joined : ∀ n n' n'', first n = middle n' → second n' = later n'' → whole n = third n'') :
    V.Follows m m₃ whole last := by
  constructor
  · exact start.grows.trans (next.grows.trans rest.grows)
  · intro unrefused n hides
    obtain ⟨early, late⟩ :=
      Machine.unrefused_split start.grows (next.grows.trans rest.grows) unrefused
    obtain ⟨between, late⟩ := Machine.unrefused_split next.grows rest.grows late
    obtain ⟨n', hides', same⟩ := start.ends early n hides
    obtain ⟨n'', hides'', same'⟩ := next.ends between n' hides'
    obtain ⟨n₃, hides₃, same₃⟩ := rest.ends late n'' hides''
    exact ⟨n₃, hides₃, (joined n n' n'' same same').trans same₃⟩

theorem follows_both {first middle : Machine → σ} {second later : Machine → τ}
    {whole last : Machine → υ} (start : V.Follows m m' first middle)
    (next : V.Follows m' m'' second later)
    (joined : ∀ n n' n'', first n = middle n' → second n' = later n'' → whole n = last n'') :
    V.Follows m m'' whole last :=
  follows_then_then start next (follows_here fun _ => rfl) joined

theorem follows_map {work expected : Machine → σ} {work' expected' : Machine → τ}
    (follows : V.Follows m m' work expected)
    (same : ∀ n n', work n = expected n' → work' n = expected' n') :
    V.Follows m m' work' expected' := by
  refine ⟨follows.grows, fun unrefused n hides => ?_⟩
  obtain ⟨n', hides', ended⟩ := follows.ends unrefused n hides
  exact ⟨n', hides', same n n' ended⟩

theorem follows_refused {e : Event} {work expected : Machine → σ} (refusal : e.IsRefusal)
    (same : m'.events = m.events) : V.Follows m (m'.emit e) work expected where
  grows := by
    rw [← same]
    exact List.suffix_cons e _
  ends unrefused := absurd unrefused (Machine.refused_emit refusal same)

def Answers (V : Veil) (f : α → β) (m : Machine) (answer : α × Machine)
    (work : Machine → β × Machine) : Prop :=
  V.Follows m answer.2 work fun n => (f answer.1, n)

def Performs (V : Veil) (f : α → β) (g : ρ → σ) (m : Machine) (o : Outcome ε ρ α)
    (work : Machine → Outcome ε σ β) : Prop :=
  V.Follows m o.machine work fun n => ⟨o.result.map f, g o.target, n⟩

theorem performs_andThen {f : α → β} {f' : α' → τ} {g : ρ → σ} {o : Outcome ε ρ α}
    {work : Machine → Outcome ε σ β} {next : α → ρ → Machine → Outcome ε ρ α'}
    {next' : β → σ → Machine → Outcome ε σ τ} (first : V.Performs f g m o work)
    (further : ∀ a r m, V.Performs f' g m (next a r m) (next' (f a) (g r))) :
    V.Performs f' g m (o.andThen next) fun n => (work n).andThen next' := by
  obtain ⟨result, target, m'⟩ := o
  cases result with
  | ok a =>
    apply follows_then first (further a target m')
    intro n n' ended
    rw [ended]
    rfl
  | error e =>
    apply follows_map first
    intro n n' ended
    rw [ended]
    rfl

def Carries (V : Veil) (work work' : Machine → Machine) : Prop :=
  ∀ m, V.Follows m (work m) work' id

theorem carries_nothing (V : Veil) : V.Carries id id := fun _ => follows_here fun _ => rfl

theorem carries_trans {work work' later later' : Machine → Machine}
    (first : V.Carries work work') (second : V.Carries later later') :
    V.Carries (later ∘ work) (later' ∘ work') :=
  fun m => follows_then (first m) (second (work m)) fun _ _ ended => congrArg later' ended

theorem carries_release (V : Veil) {a : Allocator} {size size' : Nat}
    (sized : V = limits → size' = size) :
    V.Carries (Machine.release · a size) (Machine.release · (V.handle a) size') :=
  fun _ => ⟨List.suffix_refl _, fun _ _ hides => ⟨_, hides_release hides sized, rfl⟩⟩

theorem follows_last {work work' : Machine → Machine} (carries : V.Carries work work')
    {last : Machine → σ} {m : Machine} :
    V.Follows m (work m) (fun n => last (work' n)) last :=
  follows_map (carries m) fun _ _ ended => congrArg last ended

end Veil
end TrackedValues
