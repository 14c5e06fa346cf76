import Mathlib.Algebra.GroupWithZero.Nat
import TrackedValues.Proofs.Memory.Admission
import TrackedValues.Proofs.World.Housing

/-!
What a copy costs. On one tracker, over a base allocator that refuses nothing, a copy is paid for
with one allocation for each container that has content; the bytes of them all are its footprint.
It succeeds exactly when the footprint fits; otherwise its error is that of the first container, a
list before its elements, with which the total no longer fits.
-/
namespace TrackedValues

namespace Demand

def total (demands : List Demand) : Nat := (demands.map bytes).sum

/-- The bytes that the error of a demand names: for a table, those of the slots wanted. -/
def named : Demand → Nat
  | table a slots => a.slotSize * slots
  | text _ len => len

/-- The first demand with which the total of the demands so far exceeds what the limit leaves. -/
def FirstOver (limit live : Nat) (demands : List Demand) (d : Demand) : Prop :=
  ∃ before behind, demands = before ++ d :: behind ∧
    limit < live + total (before ++ [d]) ∧
    ∀ early e late, before = early ++ e :: late → live + total (early ++ [e]) ≤ limit

/-- A demand on one tracker for a block that there can be. -/
structure Plain (t : TrackerId) (d : Demand) : Prop where
  handle : d.allocator = .tracked t
  fits : d.bytes ≤ d.largest
  positive : 0 < d.bytes

theorem total_cons (d : Demand) (more : List Demand) :
    total (d :: more) = d.bytes + total more := by
  simp [total]

theorem total_singleton (d : Demand) : total [d] = d.bytes := by simp [total]

theorem total_append (first second : List Demand) :
    total (first ++ second) = total first + total second := by
  simp [total]

theorem firstOver_cons {limit live : Nat} {d e : Demand} {more : List Demand}
    (within : live + d.bytes ≤ limit) (first : FirstOver limit (live + d.bytes) more e) :
    FirstOver limit live (d :: more) e := by
  obtain ⟨before, behind, rfl, exceeds, earlier⟩ := first
  refine ⟨d :: before, behind, rfl, ?_, ?_⟩
  · rw [List.cons_append, total_cons, ← Nat.add_assoc]
    exact exceeds
  · intro early f late split
    cases early with
    | nil =>
      obtain ⟨rfl, _⟩ := List.cons.inj split
      rw [List.nil_append, total_singleton]
      exact within
    | cons g early =>
      obtain ⟨rfl, rest⟩ := List.cons.inj split
      rw [List.cons_append, total_cons, ← Nat.add_assoc]
      exact earlier early f late rest

theorem failure_eq_named {d : Demand} (fits : d.bytes ≤ d.largest) : d.failure = ⟨d.named⟩ := by
  cases d with
  | text a len => rfl
  | table a slots =>
    have fewer : a.slotSize * slots ≤ a.slotSize * max slots 4 :=
      Nat.mul_le_mul_left _ (Nat.le_max_left _ _)
    have fits : a.slotSize * max slots 4 ≤ tableMax := fits
    have small : tableMax ≤ wordMax := by decide
    exact congrArg AllocationError.mk (saturatingMul_exact _ _ (by omega))

theorem lt_total_of_firstOver {limit live : Nat} {demands : List Demand} {d : Demand}
    (first : FirstOver limit live demands d) : limit < live + total demands := by
  obtain ⟨before, behind, rfl, exceeds, _⟩ := first
  rw [total_append, total_singleton] at exceeds
  rw [total_append, total_cons]
  omega

theorem total_eq_zero_iff {demands : List Demand} (positive : ∀ d ∈ demands, 0 < d.bytes) :
    total demands = 0 ↔ demands = [] := by
  cases demands with
  | nil => simp [total]
  | cons d more =>
    have first := positive d List.mem_cons_self
    rw [total_cons]
    refine iff_of_false ?_ (List.cons_ne_nil d more)
    omega

end Demand

def Base.Generous (base : Base) : Prop := ∀ n r, base.accepts n r = true

/-- What some granted demands have changed: one tracker, and the number of requests made. -/
structure Machine.Charged (m : Machine) (t : TrackerId) (demands : List Demand) (m' : Machine) :
    Prop where
  base : m'.heap.base = m.heap.base
  limit : (m'.heap.tracker t).limit = (m.heap.tracker t).limit
  asked : m'.heap.asked = m.heap.asked + demands.length
  allocations : (m'.heap.tracker t).stats.allocations =
    (m.heap.tracker t).stats.allocations + demands.length
  live : (m'.heap.tracker t).stats.liveBytes =
    (m.heap.tracker t).stats.liveBytes + Demand.total demands
  reallocations : (m'.heap.tracker t).stats.reallocations =
    (m.heap.tracker t).stats.reallocations
  deallocations : (m'.heap.tracker t).stats.deallocations =
    (m.heap.tracker t).stats.deallocations

namespace Demand

theorem reported_heap (d : Demand) (m : Machine) : (d.reported m).heap = m.heap := by
  cases d <;> rfl

theorem serve_plain {t : TrackerId} {d : Demand} (plain : d.Plain t) {m : Machine}
    (generous : m.heap.base.Generous) :
    (∃ m', d.serve m = some m' ∧ (m.heap.tracker t).Admits d.bytes ∧ m.Charged t [d] m') ∨
      d.serve m = none ∧ ¬(m.heap.tracker t).Admits d.bytes := by
  let after := ({ m.heap with asked := m.heap.asked + 1 }).update t (·.grant (.fresh d.bytes))
  have request : m.request (.tracked t) (.fresh d.bytes) =
      if (m.heap.tracker t).Admits d.bytes then (some m.heap.asked, { m with heap := after })
      else (none, m) := by
    have accepted := generous m.heap.asked (.fresh d.bytes)
    simp only [Machine.request, Heap.request, Allocator.tracked, Heap.requestThrough, accepted,
      Request.extra]
    split <;> rfl
  have granted : after.tracker t = (m.heap.tracker t).grant (.fresh d.bytes) := by
    rw [Heap.tracker_update, if_pos rfl]
    rfl
  unfold serve
  rw [if_pos plain.fits, plain.handle, request]
  by_cases admitted : (m.heap.tracker t).Admits d.bytes
  · left
    rw [if_pos admitted]
    refine ⟨_, rfl, admitted, ?_⟩
    constructor <;> rw [reported_heap]
    · rfl
    · rw [granted]
      rfl
    · rfl
    · rw [granted]
      rfl
    · rw [granted, total_cons]
      rfl
    · rw [granted]
      rfl
    · rw [granted]
      rfl
  · right
    rw [if_neg admitted]
    exact ⟨rfl, admitted⟩

theorem charged_cons {m m' m'' : Machine} {t : TrackerId} {d : Demand} {more : List Demand}
    (first : m.Charged t [d] m') (rest : m'.Charged t more m'') : m.Charged t (d :: more) m'' where
  base := rest.base.trans first.base
  limit := rest.limit.trans first.limit
  asked := by
    rw [rest.asked, first.asked, List.length_singleton, List.length_cons]
    omega
  allocations := by
    rw [rest.allocations, first.allocations, List.length_singleton, List.length_cons]
    omega
  live := by
    rw [rest.live, first.live, total_singleton, total_cons, Nat.add_assoc]
  reallocations := rest.reallocations.trans first.reallocations
  deallocations := rest.deallocations.trans first.deallocations

theorem serveAll_plain {t : TrackerId} {demands : List Demand}
    (plain : ∀ d ∈ demands, d.Plain t) {m : Machine} (generous : m.heap.base.Generous)
    (word : ∀ limit ∈ (m.heap.tracker t).limit, limit ≤ wordMax) :
    (∃ m', serveAll demands m = .ok m' ∧ m.Charged t demands m' ∧
      (demands ≠ [] → ∀ limit ∈ (m.heap.tracker t).limit,
        (m.heap.tracker t).stats.liveBytes + total demands ≤ limit)) ∨
    ∃ limit d, serveAll demands m = .error d ∧ (m.heap.tracker t).limit = some limit ∧
      FirstOver limit (m.heap.tracker t).stats.liveBytes demands d := by
  -- Each demand that is met leaves a machine on which the rest of them start, with more bytes live.
  induction demands generalizing m with
  | nil => exact Or.inl ⟨m, rfl, ⟨rfl, rfl, rfl, rfl, rfl, rfl, rfl⟩, by simp⟩
  | cons d more ih =>
    rw [List.forall_mem_cons] at plain
    rcases serve_plain plain.1 generous with ⟨m', served, admitted, charged⟩ | ⟨refused, full⟩
    · have live := charged.live
      rw [total_singleton] at live
      rw [← charged.base] at generous
      rw [← charged.limit] at word
      rw [serveAll, served]
      rcases ih plain.2 generous word with ⟨m'', rest, charges, within⟩ |
        ⟨limit, e, failed, set, first⟩
      · refine Or.inl ⟨m'', rest, charged_cons charged charges, fun _ limit set => ?_⟩
        cases more with
        | nil =>
          rw [total_singleton]
          exact (admitted limit set).2
        | cons e more =>
          have within := within (by simp) limit (by rw [charged.limit]; exact set)
          rw [live] at within
          rw [total_cons]
          omega
      · rw [charged.limit] at set
        rw [live] at first
        exact Or.inr ⟨limit, e, failed, set, firstOver_cons (admitted limit set).2 first⟩
    · right
      cases set : (m.heap.tracker t).limit with
      | none => exact absurd (by simp [Tracker.Admits, set]) full
      | some limit =>
        refine ⟨limit, d, by rw [serveAll, refused], rfl, [], more, rfl, ?_, by simp⟩
        have word := word limit (by rw [set]; rfl)
        rw [List.nil_append, total_singleton]
        -- A total that exceeds a word exceeds the limit too, since the limit is a word.
        by_contra room
        apply full
        intro other found
        rw [set] at found
        cases found
        omega

end Demand

theorem Allocator.slotSize_pos (a : Allocator) : 0 < a.slotSize := by
  unfold Allocator.slotSize
  omega

namespace Value

def footprints : Cases Nat where
  integer _ := 0
  real _ := 0
  text b := b.len
  boolean _ := 0
  list l := (if l.len = 0 then 0 else l.allocator.slotSize * max l.len 4) + l.elements.sum

/-- The bytes of the tables and texts of a copy: no more slots than elements, or four, in each. -/
def footprint (v : Value) : Nat := v.fold footprints

def populating : Cases Nat where
  integer _ := 0
  real _ := 0
  text b := if b.len = 0 then 0 else 1
  boolean _ := 0
  list l := (if l.len = 0 then 0 else 1) + l.elements.sum

/-- The number of lists and texts in the value that are not empty. -/
def populated (v : Value) : Nat := v.fold populating

theorem footprint_list (l : ValueList) : (list l).footprint =
    (if l.len = 0 then 0 else l.allocator.slotSize * max l.len 4) +
      (l.elements.map footprint).sum := by
  rw [← SlotList.elements_map]
  exact fold_list footprints l

theorem populated_list (l : ValueList) : (list l).populated =
    (if l.len = 0 then 0 else 1) + (l.elements.map populated).sum := by
  rw [← SlotList.elements_map]
  exact fold_list populating l

theorem total_flatMap {vs : List Value}
    (each : ∀ v ∈ vs, v.footprint = Demand.total v.demands) :
    (vs.map footprint).sum = Demand.total (vs.flatMap demands) := by
  induction vs with
  | nil => rfl
  | cons v vs ih =>
    rw [List.forall_mem_cons] at each
    rw [List.map_cons, List.sum_cons, List.flatMap_cons, Demand.total_append, each.1, ih each.2]

theorem footprint_eq_total (v : Value) : v.footprint = Demand.total v.demands := by
  induction v using induct_stored with
  | integer n => rfl
  | real x => rfl
  | boolean b => rfl
  | text b =>
    change b.len = Demand.total b.demands
    unfold TextBuffer.demands
    split
    · rename_i vacant
      exact vacant
    · rw [Demand.total_cons]
      rfl
  | list l each =>
    rw [footprint_list, demands_list, Demand.total_append,
      total_flatMap fun v member => each v (SlotList.mem_stored member), ValueList.ownDemands]
    congr 1
    split
    · rfl
    · rw [Demand.total_cons]
      rfl

theorem populated_eq_length (v : Value) : v.populated = v.demands.length := by
  induction v using induct_stored with
  | integer n => rfl
  | real x => rfl
  | boolean b => rfl
  | text b =>
    change (if b.len = 0 then 0 else 1) = b.demands.length
    unfold TextBuffer.demands
    split <;> rfl
  | list l each =>
    rw [populated_list, demands_list, List.length_append, List.length_flatMap,
      ValueList.ownDemands]
    congr 1
    · split <;> rfl
    · congr 1
      exact List.map_congr_left fun v member => each v (SlotList.mem_stored member)

theorem demands_fit {v : Value} (sound : v.Sound) (housed : v.Housed) :
    ∀ d ∈ v.demands, d.bytes ≤ d.largest ∧ 0 < d.bytes ∧
      ∃ c ∈ v.containers, c.allocator = d.allocator := by
  induction sound with
  | integer n => exact List.forall_mem_nil _
  | real x => exact List.forall_mem_nil _
  | boolean b => exact List.forall_mem_nil _
  | @text b sound =>
    intro d member
    change d ∈ b.demands at member
    unfold TextBuffer.demands at member
    split at member
    · simp at member
    · rename_i wanted
      rw [List.mem_singleton.mp member]
      exact ⟨Nat.le_trans sound.inside sound.addressable, Nat.pos_of_ne_zero wanted,
        ⟨b.allocator, b.capacity⟩, List.mem_singleton_self _, rfl⟩
  | @list l xs holds each ih =>
    obtain ⟨table, inner⟩ := (housed_list holds).mp housed
    rw [demands_list, containers_list, SlotList.elements_eq holds]
    intro d member
    rcases List.mem_append.mp member with own | element
    · unfold ValueList.ownDemands at own
      split at own
      · simp at own
      · rename_i wanted
        rw [List.mem_singleton.mp own]
        have four : 0 < max l.len 4 := Nat.lt_of_lt_of_le (by decide) (Nat.le_max_right _ _)
        exact ⟨SlotList.slotsFor_addressable holds table wanted,
          Nat.mul_pos l.allocator.slotSize_pos four, _, List.mem_cons_self, rfl⟩
    · obtain ⟨v, inside, asked⟩ := List.mem_flatMap.mp element
      obtain ⟨fits, positive, c, container, handle⟩ := ih v inside (inner v inside) d asked
      exact ⟨fits, positive, c,
        List.mem_cons_of_mem _ (List.mem_flatMap.mpr ⟨v, inside, container⟩), handle⟩

structure CopyCosts (v : Value) (t : TrackerId) (m : Machine) : Prop where
  succeeds_iff : (∃ w, (v.duplicate m).1 = .ok w) ↔
    v.footprint = 0 ∨ (m.heap.tracker t).limit = none ∨
      ∃ limit, (m.heap.tracker t).limit = some limit ∧
        (m.heap.tracker t).stats.liveBytes + v.footprint ≤ limit
  charged : ∀ w m', v.duplicate m = (.ok w, m') →
    (m'.heap.tracker t).stats.allocations =
        (m.heap.tracker t).stats.allocations + v.populated ∧
      (m'.heap.tracker t).stats.liveBytes =
        (m.heap.tracker t).stats.liveBytes + v.footprint ∧
      (m'.heap.tracker t).stats.reallocations = (m.heap.tracker t).stats.reallocations ∧
      (m'.heap.tracker t).stats.deallocations = (m.heap.tracker t).stats.deallocations ∧
      m'.heap.asked = m.heap.asked + v.populated
  refused : ∀ e, (v.duplicate m).1 = .error e →
    ∃ limit d, (m.heap.tracker t).limit = some limit ∧
      Demand.FirstOver limit (m.heap.tracker t).stats.liveBytes v.demands d ∧
      e = .allocation ⟨d.named⟩

theorem copyCosts {v : Value} (sound : v.Sound) {t : TrackerId} {m : Machine}
    (plain : ∀ d ∈ v.demands, d.Plain t) (generous : m.heap.base.Generous)
    (word : ∀ limit ∈ (m.heap.tracker t).limit, limit ≤ wordMax) : v.CopyCosts t m := by
  have settles := settles_duplicate sound m
  have bytes := footprint_eq_total v
  have blocks := populated_eq_length v
  have nothing_iff : v.footprint = 0 ↔ v.demands = [] := by
    rw [bytes]
    exact Demand.total_eq_zero_iff fun d member => (plain d member).positive
  unfold Settles at settles
  rcases Demand.serveAll_plain plain generous word with ⟨m', served, charged, within⟩ |
    ⟨limit, d, failed, set, first⟩
  · rw [served] at settles
    constructor
    · refine iff_of_true ⟨_, congrArg Prod.fst settles⟩ ?_
      by_cases nothing : v.demands = []
      · exact Or.inl (nothing_iff.mpr nothing)
      · cases set : (m.heap.tracker t).limit with
        | none => exact Or.inr (Or.inl rfl)
        | some limit =>
          refine Or.inr (Or.inr ⟨limit, rfl, ?_⟩)
          rw [bytes]
          exact within nothing limit (by rw [set]; rfl)
    · intro w m'' copied
      rw [settles] at copied
      cases copied
      rw [bytes, blocks]
      exact ⟨charged.allocations, charged.live, charged.reallocations, charged.deallocations,
        charged.asked⟩
    · intro e refused
      rw [settles] at refused
      cases refused
  · rw [failed] at settles
    have exceeds := Demand.lt_total_of_firstOver first
    have member : d ∈ v.demands := by
      obtain ⟨before, behind, split, _⟩ := first
      rw [split]
      simp
    constructor
    · refine iff_of_false ?_ ?_
      · rintro ⟨w, copied⟩
        rw [settles] at copied
        cases copied
      · rintro (nothing | unlimited | ⟨other, found, room⟩)
        · rw [nothing_iff.mp nothing] at member
          cases member
        · rw [set] at unlimited
          cases unlimited
        · rw [set] at found
          cases found
          omega
    · intro w m' copied
      rw [copied] at settles
      cases settles
    · intro e refused
      rw [settles] at refused
      cases refused
      exact ⟨limit, d, set, first, congrArg Error.allocation
        (Demand.failure_eq_named (plain d member).fits)⟩

end Value

namespace World

/--
After any run, for whatever is owned or inside what is owned: if all its containers are on one
tracker, a copy of it on any machine whose base allocator refuses nothing costs its footprint.
-/
theorem run_copy_costs (base : Base) (operations : List Operation) {owner v : Value}
    (owned : owner ∈ (run base operations).owned) (inside : v.Inside owner) {t : TrackerId}
    (alone : ∀ c ∈ v.containers, c.allocator = .tracked t) {m : Machine}
    (generous : m.heap.base.Generous)
    (word : ∀ limit ∈ (m.heap.tracker t).limit, limit ≤ wordMax) : v.CopyCosts t m := by
  have sound := Value.sound_inside inside (run_accounts_owned base operations owned).1
  have housed := Value.housed_inside inside (run_housed base operations owner owned)
  apply Value.copyCosts sound _ generous word
  intro d member
  obtain ⟨fits, positive, c, container, handle⟩ := Value.demands_fit sound housed d member
  exact ⟨handle.symm.trans (alone c container), fits, positive⟩

def granting : Base where
  accepts _ _ := true
  scratch _ _ := 0

/--
A text and a list of five integers in a list, all on one tracker, which has room for all but one
byte of a copy.
-/
def cramped : List Operation :=
  [.make (.roomyList (.tracked 0) 1), .make (.text (.tracked 0) [97, 98, 99]), .give .back 0 0 [],
    .make (.emptyList (.tracked 0))] ++
  ([1, 2, 3, 4, 5].flatMap fun n => [.make (.integer n), .give .back 0 0 []]) ++
  [.give .back 0 0 [], .setLimit 0 (some 2525)]

theorem run_copy_costs_cramped :
    ∃ list, (run granting cramped).owned = [list] ∧
      ((run granting cramped).stats 0).liveBytes = 1443 ∧ list.footprint = 1083 ∧
      (list.duplicate (run granting cramped).machine).1 = .error (.allocation ⟨600⟩) ∧
      list.CopyCosts 0 (run granting cramped).machine := by
  obtain ⟨list, owned, live, footprint, refused, containers⟩ : ∃ list,
      (run granting cramped).owned = [list] ∧
      ((run granting cramped).stats 0).liveBytes = 1443 ∧ list.footprint = 1083 ∧
      (list.duplicate (run granting cramped).machine).1 = .error (.allocation ⟨600⟩) ∧
      list.containers = [⟨.tracked 0, 480⟩, ⟨.tracked 0, 3⟩, ⟨.tracked 0, 960⟩] :=
    ⟨_, rfl, rfl, rfl, rfl, rfl⟩
  have owner : list ∈ (run granting cramped).owned := by simp [owned]
  have alone : ∀ c ∈ list.containers, c.allocator = .tracked 0 := by simp [containers]
  have word : ∀ limit ∈ ((run granting cramped).machine.heap.tracker 0).limit,
      limit ≤ wordMax := by decide +kernel
  exact ⟨list, owned, live, footprint, refused,
    run_copy_costs granting cramped owner (.itself list) alone (fun _ _ => rfl) word⟩

end World
end TrackedValues
