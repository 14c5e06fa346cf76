import Mathlib.Data.List.Perm.Basic
import TrackedValues.Machine

/-!
What the trackers of a heap count. A holding is a live block together with the handle it was
obtained through; it counts on every tracker of that handle. A heap accounts for a list of holdings
when every tracker shows exactly their bytes and their number. Requests and releases are followed
as exchanges of holdings, beside which all other holdings stay as they are.
-/
namespace TrackedValues

theorem perm_eraseIdx {α : Type} {xs : List α} {n : Nat} {x : α} (found : xs[n]? = some x) :
    xs.Perm (x :: xs.eraseIdx n) ∧ ∀ y, (xs.set n y).Perm (y :: xs.eraseIdx n) := by
  obtain ⟨inside, rfl⟩ := List.getElem?_eq_some_iff.mp found
  exact ⟨(List.getElem_cons_eraseIdx_perm inside).symm, List.set_perm_cons_eraseIdx inside⟩

structure Holding where
  allocator : Allocator
  size : Nat
  deriving DecidableEq, Repr

namespace Holding

def on (t : TrackerId) (held : List Holding) : List Holding :=
  held.filter fun h => t ∈ h.allocator.chain

def bytes (t : TrackerId) (held : List Holding) : Nat :=
  (on t held).foldr (fun h total => h.size + total) 0

def count (t : TrackerId) (held : List Holding) : Nat := (on t held).length

theorem bytes_cons (t : TrackerId) (h : Holding) (held : List Holding) :
    bytes t (h :: held) = (if t ∈ h.allocator.chain then h.size else 0) + bytes t held := by
  by_cases tracked : t ∈ h.allocator.chain <;> simp [bytes, on, tracked]

theorem count_cons (t : TrackerId) (h : Holding) (held : List Holding) :
    count t (h :: held) = (if t ∈ h.allocator.chain then 1 else 0) + count t held := by
  by_cases tracked : t ∈ h.allocator.chain <;> simp [count, on, tracked, Nat.add_comm]

theorem bytes_append (t : TrackerId) (held others : List Holding) :
    bytes t (held ++ others) = bytes t held + bytes t others := by
  induction held with
  | nil => exact (Nat.zero_add _).symm
  | cons h held ih => rw [List.cons_append, bytes_cons, bytes_cons, ih, Nat.add_assoc]

theorem count_append (t : TrackerId) (held others : List Holding) :
    count t (held ++ others) = count t held + count t others := by
  simp [count, on]

theorem bytes_perm (t : TrackerId) {held others : List Holding} (perm : held.Perm others) :
    bytes t held = bytes t others := by
  induction perm with
  | nil => rfl
  | cons h _ ih => rw [bytes_cons, bytes_cons, ih]
  | swap a b held =>
    simp only [bytes_cons]
    exact Nat.add_left_comm _ _ _
  | trans _ _ first second => exact first.trans second

theorem count_perm (t : TrackerId) {held others : List Holding} (perm : held.Perm others) :
    count t held = count t others := (perm.filter _).length_eq

def live (held : List Holding) : List Holding := held.filter fun h => h.size ≠ 0

theorem live_append (held others : List Holding) :
    live (held ++ others) = live held ++ live others := List.filter_append held others

theorem bytes_live (t : TrackerId) (held : List Holding) : bytes t (live held) = bytes t held := by
  induction held with
  | nil => rfl
  | cons h held ih =>
    by_cases vacant : h.size = 0
    · have skipped : live (h :: held) = live held := by simp [live, vacant]
      rw [skipped, ih, bytes_cons, vacant]
      simp
    · have kept : live (h :: held) = h :: live held := by simp [live, vacant]
      rw [kept, bytes_cons, bytes_cons, ih]

end Holding

namespace Heap

theorem tracker_granted {h h' : Heap} {r : Request} {chain : List TrackerId} {block : Nat}
    (nodup : chain.Nodup) (granted : h.requestThrough r chain = (some block, h'))
    (t : TrackerId) :
    h'.tracker t = if t ∈ chain then (h.tracker t).grant r else h.tracker t := by
  induction chain generalizing h' block with
  | nil =>
    simp only [requestThrough, Prod.mk.injEq] at granted
    rw [← granted.2]
    rfl
  | cons outer inner ih =>
    obtain ⟨apart, rest⟩ := List.nodup_cons.mp nodup
    unfold requestThrough at granted
    split at granted
    · split at granted
      · rename_i block' passed accepted
        simp only [Prod.mk.injEq] at granted
        have before := ih rest accepted
        rw [← granted.2, tracker_update]
        by_cases same : t = outer
        · subst same
          simp [before, apart]
        · simp [before, same]
      · simp at granted
    · simp at granted

theorem tracker_refused {h h' : Heap} {r : Request} {chain : List TrackerId}
    (refused : h.requestThrough r chain = (none, h')) (t : TrackerId) :
    h'.tracker t = h.tracker t := by
  induction chain generalizing h' with
  | nil =>
    simp only [requestThrough, Prod.mk.injEq] at refused
    rw [← refused.2]
    rfl
  | cons outer inner ih =>
    unfold requestThrough at refused
    split at refused
    · split at refused
      · simp at refused
      · rename_i passed inner_refused
        simp only [Prod.mk.injEq] at refused
        rw [← refused.2]
        exact ih inner_refused
    · simp only [Prod.mk.injEq] at refused
      rw [← refused.2]

theorem tracker_released (h : Heap) (size : Nat) {chain : List TrackerId} (nodup : chain.Nodup)
    (t : TrackerId) :
    (h.releaseThrough size chain).tracker t =
      if t ∈ chain then (h.tracker t).release size else h.tracker t := by
  induction chain with
  | nil => rfl
  | cons outer inner ih =>
    obtain ⟨apart, rest⟩ := List.nodup_cons.mp nodup
    rw [releaseThrough, tracker_update]
    by_cases same : t = outer
    · subst same
      simp [ih rest, apart]
    · simp [ih rest, same]

theorem limit_request (h : Heap) (a : Allocator) (r : Request) (t : TrackerId) :
    ((h.request a r).2.tracker t).limit = (h.tracker t).limit := by
  unfold request
  cases answer : (h.requestThrough r a.chain).1 with
  | none => rw [tracker_refused (Prod.ext answer rfl) t]
  | some block =>
    rw [tracker_granted a.nodup (Prod.ext answer rfl) t]
    split <;> rfl

theorem limit_release (h : Heap) (a : Allocator) (size : Nat) (t : TrackerId) :
    ((h.release a size).tracker t).limit = (h.tracker t).limit := by
  rw [release, tracker_released h size a.nodup t]
  split <;> rfl

theorem limit_replace (h : Heap) (a : Allocator) (old new : Nat) (t : TrackerId) :
    ((h.replace a old new).2.tracker t).limit = (h.tracker t).limit := by
  have requested := h.limit_request a (.fresh new) t
  unfold replace
  split
  · rename_i answer
    rw [answer] at requested
    rw [limit_release]
    exact requested
  · rename_i answer
    rw [answer] at requested
    exact requested

theorem limit_setLimit (h : Heap) (t u : TrackerId) (limit : Option Nat) :
    ((h.setLimit t limit).tracker u).limit = if u = t then limit else (h.tracker u).limit := by
  rw [setLimit, tracker_update]
  split <;> rfl

def Accounts (h : Heap) (held : List Holding) : Prop :=
  ∀ t, (h.tracker t).stats.liveBytes = Holding.bytes t held ∧
    (h.tracker t).stats.allocations = (h.tracker t).stats.deallocations + Holding.count t held

theorem accounts_frame {h h' : Heap} {held : List Holding} (accounts : h.Accounts held)
    (same : ∀ t, (h'.tracker t).stats = (h.tracker t).stats) : h'.Accounts held := by
  intro t
  rw [same t]
  exact accounts t

theorem accounts_perm {h : Heap} {held others : List Holding} (accounts : h.Accounts held)
    (perm : held.Perm others) : h.Accounts others := by
  intro t
  rw [← Holding.bytes_perm t perm, ← Holding.count_perm t perm]
  exact accounts t

theorem accounts_fresh {h h' : Heap} {a : Allocator} {size block : Nat} {held : List Holding}
    (accounts : h.Accounts held) (granted : h.request a (.fresh size) = (some block, h')) :
    h'.Accounts (⟨a, size⟩ :: held) := by
  intro t
  obtain ⟨bytes, blocks⟩ := accounts t
  rw [tracker_granted a.nodup granted t, Holding.bytes_cons, Holding.count_cons]
  by_cases tracked : t ∈ a.chain
  · simp only [tracked, ↓reduceIte, Tracker.grant, Stats.granted, Stats.raisePeak]
    omega
  · simp only [tracked, ↓reduceIte]
    omega

theorem accounts_grow {h h' : Heap} {a : Allocator} {old new block : Nat} {held : List Holding}
    (accounts : h.Accounts (⟨a, old⟩ :: held)) (longer : old ≤ new)
    (granted : h.request a (.grow old new) = (some block, h')) :
    h'.Accounts (⟨a, new⟩ :: held) := by
  intro t
  obtain ⟨bytes, blocks⟩ := accounts t
  rw [Holding.bytes_cons] at bytes
  rw [Holding.count_cons] at blocks
  rw [tracker_granted a.nodup granted t, Holding.bytes_cons, Holding.count_cons]
  by_cases tracked : t ∈ a.chain
  · simp only [tracked, ↓reduceIte, Tracker.grant, Stats.granted, Stats.raisePeak] at *
    omega
  · simp only [tracked, ↓reduceIte] at *
    omega

theorem accounts_release {h : Heap} {a : Allocator} {size : Nat} {held : List Holding}
    (accounts : h.Accounts (⟨a, size⟩ :: held)) : (h.release a size).Accounts held := by
  intro t
  obtain ⟨bytes, blocks⟩ := accounts t
  rw [Holding.bytes_cons] at bytes
  rw [Holding.count_cons] at blocks
  rw [release, tracker_released h size a.nodup t]
  by_cases tracked : t ∈ a.chain
  · simp only [tracked, ↓reduceIte, Tracker.release, Stats.released, Stats.raisePeak] at *
    omega
  · simp only [tracked, ↓reduceIte] at *
    omega

theorem accounts_setLimit {h : Heap} {held : List Holding} (accounts : h.Accounts held)
    (t : TrackerId) (limit : Option Nat) : (h.setLimit t limit).Accounts held := by
  apply accounts_frame accounts
  intro u
  rw [setLimit, tracker_update]
  split
  · rename_i same
    rw [same]
  · rfl

theorem accounts_start (base : Base) : ({ base := base } : Heap).Accounts [] := by
  intro t
  exact ⟨rfl, rfl⟩

end Heap

namespace Machine

/-- From one machine to another, some holdings have become others; all else is held as before. -/
def Exchanges (m : Machine) (given : List Holding) (m' : Machine) (taken : List Holding) : Prop :=
  ∀ others, m.heap.Accounts (given ++ others) → m'.heap.Accounts (taken ++ others)

variable {m m' m'' : Machine} {given taken further : List Holding}

theorem exchanges_refl (m : Machine) (held : List Holding) : m.Exchanges held m held :=
  fun _ accounts => accounts

theorem exchanges_trans (first : m.Exchanges given m' taken)
    (second : m'.Exchanges taken m'' further) : m.Exchanges given m'' further :=
  fun others accounts => second others (first others accounts)

theorem exchanges_perm {given' taken' : List Holding} (exchanges : m.Exchanges given m' taken)
    (before : given'.Perm given) (after : taken.Perm taken') : m.Exchanges given' m' taken' := by
  intro others accounts
  have exchanged := exchanges others (Heap.accounts_perm accounts (before.append_right others))
  exact Heap.accounts_perm exchanged (after.append_right others)

theorem exchanges_beside (exchanges : m.Exchanges given m' taken) (beside : List Holding) :
    m.Exchanges (given ++ beside) m' (taken ++ beside) := by
  intro others accounts
  rw [List.append_assoc] at accounts ⊢
  exact exchanges (beside ++ others) accounts

theorem exchanges_setLimit (m : Machine) (t : TrackerId) (limit : Option Nat)
    (held : List Holding) :
    m.Exchanges held { m with heap := m.heap.setLimit t limit } held :=
  fun _ accounts => Heap.accounts_setLimit accounts t limit

theorem exchanges_of_heap (same : m'.heap = m.heap) (held : List Holding) :
    m.Exchanges held m' held := by
  intro others accounts
  rw [same]
  exact accounts

theorem exchanges_fresh {a : Allocator} {size block : Nat}
    (granted : m.request a (.fresh size) = (some block, m')) : m.Exchanges [] m' [⟨a, size⟩] := by
  intro others accounts
  simp only [request, Prod.mk.injEq] at granted
  rw [← granted.2]
  exact Heap.accounts_fresh accounts (Prod.ext granted.1 rfl)

theorem exchanges_grow {a : Allocator} {old new block : Nat} (longer : old ≤ new)
    (granted : m.request a (.grow old new) = (some block, m')) :
    m.Exchanges [⟨a, old⟩] m' [⟨a, new⟩] := by
  intro others accounts
  simp only [request, Prod.mk.injEq] at granted
  rw [← granted.2]
  exact Heap.accounts_grow accounts longer (Prod.ext granted.1 rfl)

theorem tracker_refused {a : Allocator} {r : Request} (refused : m.request a r = (none, m'))
    (t : TrackerId) : m'.heap.tracker t = m.heap.tracker t := by
  simp only [request, Prod.mk.injEq] at refused
  rw [← refused.2]
  exact Heap.tracker_refused (Prod.ext refused.1 rfl) t

theorem exchanges_refused {a : Allocator} {r : Request}
    (refused : m.request a r = (none, m')) (held : List Holding) : m.Exchanges held m' held :=
  fun _ accounts => Heap.accounts_frame accounts fun t => by rw [tracker_refused refused t]

theorem exchanges_release (m : Machine) (a : Allocator) (size : Nat) :
    m.Exchanges [⟨a, size⟩] (m.release a size) [] :=
  fun _ accounts => Heap.accounts_release accounts

def giveBack (m : Machine) (held : List Holding) : Machine :=
  held.foldl (fun m h => m.release h.allocator h.size) m

theorem giveBack_append (m : Machine) (held others : List Holding) :
    m.giveBack (held ++ others) = (m.giveBack held).giveBack others := List.foldl_append

theorem giveBack_requests (m : Machine) (held : List Holding) (t : TrackerId) :
    ((m.giveBack held).heap.tracker t).stats.allocations =
        (m.heap.tracker t).stats.allocations ∧
      ((m.giveBack held).heap.tracker t).stats.reallocations =
        (m.heap.tracker t).stats.reallocations := by
  induction held generalizing m with
  | nil => exact ⟨rfl, rfl⟩
  | cons h held ih =>
    obtain ⟨fresh, grown⟩ := ih (m.release h.allocator h.size)
    have once := Heap.tracker_released m.heap h.size h.allocator.nodup t
    change (((m.release h.allocator h.size).heap).tracker t) = _ at once
    rw [once] at fresh grown
    refine ⟨fresh.trans ?_, grown.trans ?_⟩ <;> split <;> rfl

theorem exchanges_giveBack (m : Machine) (held : List Holding) :
    m.Exchanges held (m.giveBack held) [] := by
  induction held generalizing m with
  | nil => exact m.exchanges_refl []
  | cons h held ih =>
    have first := exchanges_beside (m.exchanges_release h.allocator h.size) held
    exact exchanges_trans first (ih _)

/--
From one machine to another, exactly some containers are gone: those that have storage have been
given back, each once, and nothing has been requested.
-/
structure GivesBack (m : Machine) (gone : List Holding) (m' : Machine) : Prop where
  bytes : ∀ t, (m'.heap.tracker t).stats.liveBytes + Holding.bytes t gone =
    (m.heap.tracker t).stats.liveBytes
  blocks : ∀ t, (m'.heap.tracker t).stats.liveAllocations + Holding.count t (Holding.live gone) =
    (m.heap.tracker t).stats.liveAllocations
  released : ∀ t, (m'.heap.tracker t).stats.deallocations =
    (m.heap.tracker t).stats.deallocations + Holding.count t (Holding.live gone)
  requested : ∀ t,
    (m'.heap.tracker t).stats.allocations = (m.heap.tracker t).stats.allocations ∧
      (m'.heap.tracker t).stats.reallocations = (m.heap.tracker t).stats.reallocations

theorem givesBack_giveBack {m : Machine} {held gone others : List Holding}
    (accounts : m.heap.Accounts (held ++ others)) (perm : held.Perm (Holding.live gone)) :
    m.GivesBack gone (m.giveBack held) := by
  have after := m.exchanges_giveBack held others accounts
  have tracked : ∀ t, (m.heap.tracker t).stats.liveBytes =
        ((m.giveBack held).heap.tracker t).stats.liveBytes + Holding.bytes t gone ∧
      (m.heap.tracker t).stats.allocations = (m.heap.tracker t).stats.deallocations +
        (Holding.count t (Holding.live gone) + Holding.count t others) ∧
      ((m.giveBack held).heap.tracker t).stats.allocations =
        ((m.giveBack held).heap.tracker t).stats.deallocations + Holding.count t others := by
    intro t
    obtain ⟨bytes, blocks⟩ := accounts t
    obtain ⟨bytes', blocks'⟩ := after t
    rw [Holding.bytes_append, Holding.bytes_perm t perm, Holding.bytes_live] at bytes
    rw [Holding.count_append, Holding.count_perm t perm] at blocks
    rw [List.nil_append] at bytes' blocks'
    refine ⟨?_, blocks, blocks'⟩
    rw [bytes, bytes', Nat.add_comm]
  have requests := m.giveBack_requests held
  constructor
  · intro t
    exact (tracked t).1.symm
  · intro t
    obtain ⟨_, blocks, blocks'⟩ := tracked t
    simp only [Stats.liveAllocations]
    omega
  · intro t
    obtain ⟨_, blocks, blocks'⟩ := tracked t
    have fresh := (requests t).1
    omega
  · exact requests

end Machine
end TrackedValues
