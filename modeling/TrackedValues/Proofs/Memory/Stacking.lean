import Mathlib.Algebra.BigOperators.Group.Finset.Piecewise
import Mathlib.Algebra.GroupWithZero.Nat
import Mathlib.Algebra.Order.BigOperators.Group.Finset
import TrackedValues.Proofs.Memory.Pool

/-!
Trackers side by side around one inner tracker. Every counter is the total of what the log says
that has passed the tracker, and all that passes an outer tracker passes the inner one as well.
So after any run the counters agree with the live blocks, the peaks with the log, and the counters
of the inner tracker with those of the outer ones.
-/
namespace TrackedValues

def Stats.recorded (s : Stats) : Recorded → Stats
  | .granted r => s.granted r
  | .released size => s.released size

namespace Recorded

def obtained : Recorded → Nat
  | granted (.fresh _) => 1
  | _ => 0

def grown : Recorded → Nat
  | granted (.grow _ _) => 1
  | _ => 0

def returned : Recorded → Nat
  | released _ => 1
  | _ => 0

theorem recorded_counts (s : Stats) (event : Recorded) :
    (s.recorded event).allocations = s.allocations + event.obtained ∧
      (s.recorded event).reallocations = s.reallocations + event.grown ∧
      (s.recorded event).deallocations = s.deallocations + event.returned := by
  rcases event with r | size
  · cases r <;> exact ⟨rfl, rfl, rfl⟩
  · exact ⟨rfl, rfl, rfl⟩

theorem recorded_peak (s : Stats) (event : Recorded) :
    (s.recorded event).peakBytes = max s.peakBytes (s.recorded event).liveBytes := by
  rcases event with r | size
  · cases r <;> rfl
  · rfl

end Recorded

/-- The weight of everything whose handle passes a tracker. -/
def passing {α : Type} (handle : α → Allocator) (weight : α → Nat) (t : TrackerId)
    (xs : List α) : Nat :=
  (xs.map fun x => if t ∈ (handle x).chain then weight x else 0).sum

theorem passing_cons {α : Type} (handle : α → Allocator) (weight : α → Nat) (t : TrackerId)
    (x : α) (xs : List α) :
    passing handle weight t (x :: xs) =
      (if t ∈ (handle x).chain then weight x else 0) + passing handle weight t xs := rfl

theorem Holding.bytes_eq_passing (t : TrackerId) (held : List Holding) :
    Holding.bytes t held = passing Holding.allocator Holding.size t held := by
  induction held with
  | nil => rfl
  | cons b held ih => rw [bytes_cons, passing_cons, ih]

def Entry.Exact (e : Entry) : Prop :=
  match e.event with
  | .granted (.fresh _) => True
  | .granted (.grow old new) => old ≤ new
  | .released size => ∀ t ∈ e.through.chain,
    size ≤ (e.before.heap.tracker t).stats.liveBytes ∧
      (e.before.heap.tracker t).stats.deallocations < (e.before.heap.tracker t).stats.allocations

namespace Pool
variable {within : Allocator → Prop} {p p' : Pool}

def tally (p : Pool) (weight : Recorded → Nat) (t : TrackerId) : Nat :=
  passing Entry.through (fun e => weight e.event) t p.log

def greatest (p : Pool) (t : TrackerId) : Nat :=
  (p.log.map fun e => (e.after.heap.tracker t).stats.liveBytes).foldr max 0

theorem advances_cases (permitted : ∀ b ∈ p.now.blocks, within b.allocator)
    (advances : Advances within p p') :
    (p'.log = p.log ∧ ∀ t, p'.stats t = p.stats t) ∨
      ∃ a event after, within a ∧ p' = p.record a event after ∧
        ∀ t, (after.heap.tracker t).stats =
          if t ∈ a.chain then (p.stats t).recorded event else p.stats t := by
  cases advances with
  | quiet same => exact Or.inl ⟨rfl, same⟩
  | @obtained a size block h through granted =>
    refine Or.inr ⟨a, _, _, through, rfl, fun t => ?_⟩
    rw [Heap.tracker_granted a.nodup granted t, stats]
    split <;> rfl
  | @grown a old new block h others blocks longer held left granted =>
    have through := permitted ⟨a, old⟩ (held.symm.subset List.mem_cons_self)
    refine Or.inr ⟨a, _, _, through, rfl, fun t => ?_⟩
    rw [Heap.tracker_granted a.nodup granted t, stats]
    split <;> rfl
  | @returned a size blocks held =>
    have through := permitted ⟨a, size⟩ (held.symm.subset List.mem_cons_self)
    refine Or.inr ⟨a, _, _, through, rfl, fun t => ?_⟩
    rw [Heap.release, Heap.tracker_released _ size a.nodup t, stats]
    split <;> rfl

structure Logged (p : Pool) (t : TrackerId) : Prop where
  allocations : (p.stats t).allocations = p.tally Recorded.obtained t
  reallocations : (p.stats t).reallocations = p.tally Recorded.grown t
  deallocations : (p.stats t).deallocations = p.tally Recorded.returned t
  peak : (p.stats t).peakBytes = p.greatest t
  live_le_peak : (p.stats t).liveBytes ≤ (p.stats t).peakBytes

theorem logged_start (base : Base) (t : TrackerId) : (start base).Logged t :=
  ⟨rfl, rfl, rfl, rfl, Nat.le_refl 0⟩

theorem logged_advances (permitted : ∀ b ∈ p.now.blocks, within b.allocator)
    (advances : Advances within p p') {t : TrackerId} (logged : p.Logged t) : p'.Logged t := by
  rcases advances_cases permitted advances with ⟨log, same⟩ |
    ⟨a, event, after, _, rfl, counted⟩
  · constructor <;> simp only [tally, greatest, log, same]
    · exact logged.allocations
    · exact logged.reallocations
    · exact logged.deallocations
    · exact logged.peak
    · exact logged.live_le_peak
  · obtain ⟨fresh, grown, returned⟩ := Recorded.recorded_counts (p.stats t) event
    have peak := Recorded.recorded_peak (p.stats t) event
    have log : (p.record a event after).log = ⟨a, event, p.now, after⟩ :: p.log := rfl
    have now : (p.record a event after).stats t = (after.heap.tracker t).stats := rfl
    have highest : (p.record a event after).greatest t =
        max (after.heap.tracker t).stats.liveBytes (p.greatest t) := rfl
    have before := logged.live_le_peak
    by_cases tracked : t ∈ a.chain
    · constructor <;>
        simp only [tally, log, passing_cons, highest, now, counted, tracked, ↓reduceIte]
      · rw [fresh, logged.allocations, Nat.add_comm]
        rfl
      · rw [grown, logged.reallocations, Nat.add_comm]
        rfl
      · rw [returned, logged.deallocations, Nat.add_comm]
        rfl
      · rw [peak, logged.peak, Nat.max_comm]
      · rw [peak]
        exact Nat.le_max_right _ _
    · constructor <;>
        simp only [tally, log, passing_cons, highest, now, counted, tracked, ↓reduceIte,
          Nat.zero_add]
      · exact logged.allocations
      · exact logged.reallocations
      · exact logged.deallocations
      · rw [logged.peak] at before ⊢
        exact (Nat.max_eq_right before).symm
      · exact before

/-- After an event, the trackers show the live blocks, and the event was exact. -/
structure Faithful (within : Allocator → Prop) (e : Entry) : Prop where
  through : within e.through
  accounts : e.after.heap.Accounts e.after.blocks
  permitted : ∀ b ∈ e.after.blocks, within b.allocator
  exact : e.Exact

theorem exact_returned {h : Heap} {blocks others : List Holding} {a : Allocator} {size : Nat}
    (accounts : h.Accounts blocks) (held : blocks.Perm (⟨a, size⟩ :: others)) (after : Moment) :
    Entry.Exact ⟨a, .released size, ⟨h, blocks⟩, after⟩ := by
  intro t tracked
  obtain ⟨bytes, count⟩ := Heap.accounts_perm accounts held t
  simp only [Holding.bytes_cons, Holding.count_cons, tracked, ↓reduceIte] at bytes count
  dsimp only
  omega

theorem faithful_advances (accounts : p.now.heap.Accounts p.now.blocks)
    (permitted : ∀ b ∈ p.now.blocks, within b.allocator) (advances : Advances within p p')
    (past : ∀ e ∈ p.log, Faithful within e) : ∀ e ∈ p'.log, Faithful within e := by
  have accounts' := accounts_advances advances accounts
  have permitted' := within_advances permitted advances
  intro e member
  cases advances with
  | quiet same => exact past e member
  | obtained through granted =>
    rcases List.mem_cons.mp member with rfl | before
    · exact ⟨through, accounts', permitted', trivial⟩
    · exact past e before
  | @grown a old new block h others blocks longer held left granted =>
    rcases List.mem_cons.mp member with rfl | before
    · have through := permitted ⟨a, old⟩ (held.symm.subset List.mem_cons_self)
      exact ⟨through, accounts', permitted', longer⟩
    · exact past e before
  | @returned a size blocks held =>
    rcases List.mem_cons.mp member with rfl | before
    · have through := permitted ⟨a, size⟩ (held.symm.subset List.mem_cons_self)
      exact ⟨through, accounts', permitted', exact_returned accounts held _⟩
    · exact past e before

structure Kept (within : Allocator → Prop) (p : Pool) : Prop where
  accounts : p.now.heap.Accounts p.now.blocks
  permitted : ∀ b ∈ p.now.blocks, within b.allocator
  logged : ∀ t, p.Logged t
  past : ∀ e ∈ p.log, Faithful within e

theorem kept_start (base : Base) : Kept within (start base) where
  accounts := Heap.accounts_start base
  permitted := by simp [start]
  logged := logged_start base
  past := by simp [start]

theorem kept_advances (advances : Advances within p p') (kept : Kept within p) :
    Kept within p' where
  accounts := accounts_advances advances kept.accounts
  permitted := within_advances kept.permitted advances
  logged t := logged_advances kept.permitted advances (kept.logged t)
  past := faithful_advances kept.accounts kept.permitted advances kept.past

end Pool

/-- Outer trackers side by side, each of them around one inner tracker. -/
structure Family where
  outers : Finset TrackerId
  inner : TrackerId
  apart : inner ∉ outers

namespace Family
open Pool (Action)

def handle (f : Family) (o : { t // t ∈ f.outers }) : Allocator where
  chain := [o.val, f.inner]
  nodup := by
    have other : o.val ≠ f.inner := fun same => f.apart (same ▸ o.property)
    simp [other]

def IsHandle (f : Family) (a : Allocator) : Prop := ∃ o, f.handle o = a

theorem passing_inner {α : Type} (f : Family) (handle : α → Allocator) (weight : α → Nat)
    {xs : List α} (through : ∀ x ∈ xs, f.IsHandle (handle x)) :
    passing handle weight f.inner xs = ∑ o ∈ f.outers, passing handle weight o xs := by
  induction xs with
  | nil => simp [passing]
  | cons x xs ih =>
    simp only [List.mem_cons, forall_eq_or_imp] at through
    obtain ⟨⟨outer, same⟩, rest⟩ := through
    have chain : (handle x).chain = [outer.val, f.inner] := by rw [← same]; rfl
    have once : ∀ o ∈ f.outers, (if o ∈ (handle x).chain then weight x else 0) =
        if o = outer.val then weight x else 0 := by
      intro o member
      have other : o ≠ f.inner := fun same => f.apart (same ▸ member)
      simp [chain, other]
    have inner : f.inner ∈ (handle x).chain := by simp [chain]
    simp only [passing_cons, Finset.sum_add_distrib, ih rest, inner, ↓reduceIte]
    rw [Finset.sum_congr rfl once, Finset.sum_ite_eq']
    simp

structure Reconciles (f : Family) (p : Pool) : Prop where
  bytes : ∀ t, (p.stats t).liveBytes = Holding.bytes t p.now.blocks
  blocks : ∀ t, (p.stats t).deallocations ≤ (p.stats t).allocations ∧
    (p.stats t).liveAllocations = Holding.count t p.now.blocks
  peak : ∀ t, (p.stats t).peakBytes = p.greatest t
  exact : ∀ e ∈ p.log, e.Exact
  allocations : (p.stats f.inner).allocations = ∑ o ∈ f.outers, (p.stats o).allocations
  deallocations : (p.stats f.inner).deallocations = ∑ o ∈ f.outers, (p.stats o).deallocations
  reallocations : (p.stats f.inner).reallocations = ∑ o ∈ f.outers, (p.stats o).reallocations
  liveBytes : (p.stats f.inner).liveBytes = ∑ o ∈ f.outers, (p.stats o).liveBytes
  peak_least : ∀ o ∈ f.outers, (p.stats o).peakBytes ≤ (p.stats f.inner).peakBytes
  peak_most : (p.stats f.inner).peakBytes ≤ ∑ o ∈ f.outers, (p.stats o).peakBytes

variable {f : Family} {p : Pool}

theorem tally_inner (kept : p.Kept f.IsHandle) (weight : Recorded → Nat) :
    p.tally weight f.inner = ∑ o ∈ f.outers, p.tally weight o :=
  f.passing_inner _ _ fun e member => (kept.past e member).through

theorem liveBytes_inner {m : Moment} (accounts : m.heap.Accounts m.blocks)
    (permitted : ∀ b ∈ m.blocks, f.IsHandle b.allocator) :
    (m.heap.tracker f.inner).stats.liveBytes =
      ∑ o ∈ f.outers, (m.heap.tracker o).stats.liveBytes := by
  have bytes := fun t => (accounts t).1.trans (Holding.bytes_eq_passing t m.blocks)
  simp only [bytes]
  exact f.passing_inner _ _ permitted

theorem greatest_inner (log : List Entry) (past : ∀ e ∈ log, Pool.Faithful f.IsHandle e) :
    (∀ o ∈ f.outers, Pool.greatest ⟨p.now, log⟩ o ≤ Pool.greatest ⟨p.now, log⟩ f.inner) ∧
      Pool.greatest ⟨p.now, log⟩ f.inner ≤ ∑ o ∈ f.outers, Pool.greatest ⟨p.now, log⟩ o := by
  -- After each event the inner tracker shows the sum of the outer ones, so it bounds each of them,
  -- and the maximum of the sums is at most the sum of the maxima.
  induction log with
  | nil => simp [Pool.greatest]
  | cons e log ih =>
    simp only [List.mem_cons, forall_eq_or_imp] at past
    obtain ⟨least, most⟩ := ih past.2
    have highest : ∀ t, Pool.greatest ⟨p.now, e :: log⟩ t =
        max (e.after.heap.tracker t).stats.liveBytes (Pool.greatest ⟨p.now, log⟩ t) :=
      fun _ => rfl
    have live := liveBytes_inner past.1.accounts past.1.permitted
    simp only [highest]
    constructor
    · intro o member
      have below : (e.after.heap.tracker o).stats.liveBytes ≤
          (e.after.heap.tracker f.inner).stats.liveBytes := by
        rw [live]
        exact Finset.single_le_sum (f := fun u => (e.after.heap.tracker u).stats.liveBytes)
          (fun _ _ => Nat.zero_le _) member
      exact max_le_max below (least o member)
    · apply max_le
      · rw [live]
        exact Finset.sum_le_sum fun _ _ => le_max_left _ _
      · exact most.trans (Finset.sum_le_sum fun _ _ => le_max_right _ _)

theorem reconciles_of_kept (kept : p.Kept f.IsHandle) : f.Reconciles p where
  bytes t := (kept.accounts t).1
  blocks t := by
    have count := (kept.accounts t).2
    simp only [Pool.stats, Stats.liveAllocations]
    omega
  peak t := (kept.logged t).peak
  exact e member := (kept.past e member).exact
  allocations := by
    simp only [(kept.logged _).allocations]
    exact tally_inner kept Recorded.obtained
  deallocations := by
    simp only [(kept.logged _).deallocations]
    exact tally_inner kept Recorded.returned
  reallocations := by
    simp only [(kept.logged _).reallocations]
    exact tally_inner kept Recorded.grown
  liveBytes := liveBytes_inner kept.accounts kept.permitted
  peak_least o member := by
    rw [(kept.logged o).peak, (kept.logged f.inner).peak]
    exact (greatest_inner (p := p) p.log kept.past).1 o member
  peak_most := by
    simp only [(kept.logged _).peak]
    exact (greatest_inner (p := p) p.log kept.past).2

/--
After any run through the outer trackers, with any limits and any refusals, all trackers agree with
the live blocks and with the log, and the inner tracker with the outer ones.
-/
theorem run_reconciles (f : Family) (base : Base)
    (actions : List (Action { t // t ∈ f.outers })) :
    f.Reconciles (Pool.run f.handle base actions) :=
  reconciles_of_kept (Pool.run_induction (fun o => ⟨o, rfl⟩) (Pool.kept_start base)
    (fun advances kept => Pool.kept_advances advances kept) actions)

/-- A replacement holds both blocks for a moment, and the peaks of both trackers show it. -/
example :
    let f : Family := ⟨{1, 2}, 0, by decide⟩
    let p := Pool.run f.handle .system [.allocate ⟨1, by decide⟩ 8, .replace 0 4,
      .allocate ⟨2, by decide⟩ 5]
    (p.stats 1).peakBytes = 12 ∧ (p.stats 2).peakBytes = 5 ∧ (p.stats 0).peakBytes = 12 ∧
      (p.stats 0).liveBytes = 9 := by
  decide

end Family
end TrackedValues
