import Mathlib.Order.Bounds.Defs
import TrackedValues.Proofs.Buffer.Geometric

/-!
Pushing bytes one at a time. On a machine that grants everything a buffer is multiplied by its
factor exactly when it is full, so its capacity is the first capacity times a power of the factor.
The exponent is the number of reallocations, and the least one with which all bytes fit.
-/
namespace TrackedValues

/-- The base allocator accepts everything, and no tracker of the handle has a limit. -/
structure Machine.GrantsAll (m : Machine) (a : Allocator) : Prop where
  accepts : ∀ n r, m.heap.base.accepts n r = true
  unlimited : ∀ t ∈ a.chain, (m.heap.tracker t).limit = none

theorem Machine.GrantsAll.request {m : Machine} {a : Allocator} (grants : m.GrantsAll a)
    (r : Request) : ∃ block m', m.request a r = (some block, m') ∧ m'.GrantsAll a ∧
      ∀ t ∈ a.chain, m'.heap.tracker t = (m.heap.tracker t).grant r := by
  have admits : ∀ t ∈ a.chain, (m.heap.tracker t).Admits r.extra := by
    intro t tracked limit set
    rw [grants.unlimited t tracked] at set
    cases set
  have granted := (m.heap.requestThrough_isSome_iff r a.chain).mpr ⟨admits, grants.accepts _ r⟩
  obtain ⟨block, found⟩ := Option.isSome_iff_exists.mp granted
  have answer : m.heap.requestThrough r a.chain = (some block, (m.request a r).2.heap) :=
    Prod.ext found rfl
  have counted : ∀ t ∈ a.chain,
      (m.request a r).2.heap.tracker t = (m.heap.tracker t).grant r := by
    intro t tracked
    rw [Heap.tracker_granted a.nodup answer t, if_pos tracked]
  refine ⟨block, (m.request a r).2, Prod.ext found rfl, ⟨?_, ?_⟩, counted⟩
  · rw [(Heap.requestThrough_granted answer).2.2]
    exact grants.accepts
  · intro t tracked
    rw [counted t tracked]
    exact grants.unlimited t tracked

theorem GrowthPolicy.factor_pos (p : GrowthPolicy) : 0 < p.factor :=
  Nat.lt_of_lt_of_le Nat.two_pos p.two_le_factor

theorem GrowthPolicy.twice_le (p : GrowthPolicy) (n : Nat) : n * 2 ≤ n * p.factor :=
  Nat.mul_le_mul_left n p.two_le_factor

namespace TextBuffer

def pushes (bytes : List UInt8) : List Turn := bytes.map fun byte => ⟨id, .push byte⟩

variable {b : TextBuffer} {m : Machine}

theorem growTo_granted (grants : m.GrantsAll b.allocator) {target : Nat}
    (longer : b.capacity < target) (addressable : target ≤ blockMax) :
    ∃ block m', b.growTo target m = ⟨.ok (), b.extend m.heap.base block target, m'⟩ ∧
      m'.GrantsAll b.allocator ∧ ∀ t ∈ b.allocator.chain,
        m'.heap.tracker t = (m.heap.tracker t).grant (b.growth target) := by
  obtain ⟨block, m', granted, after, counted⟩ := grants.request (b.growth target)
  refine ⟨block, m'.emit (.bufferGrown b.capacity target b.len), ?_,
    ⟨after.accepts, after.unlimited⟩, counted⟩
  rw [growTo, if_neg (Nat.not_le.mpr longer), if_neg (Nat.not_lt.mpr addressable), granted]

theorem push_roomy (roomy : b.len < b.capacity) (inside : b.capacity ≤ blockMax) (byte : UInt8)
    (m : Machine) : b.push byte m = ⟨.ok (), b.write [byte], m⟩ := by
  have word : blockMax < wordMax := by decide
  have reserved : b.reserve 1 m = ⟨.ok (), b, m⟩ :=
    (if_neg (by omega)).trans (if_pos (by omega))
  rw [push, append, List.length_singleton, reserved]
  rfl

theorem goal_full (full : b.len = b.capacity) (present : 1 ≤ b.capacity)
    (inside : b.capacity ≤ blockMax) (small : b.policy.leastCapacity ≤ b.capacity) :
    b.Short 1 ∧ b.goal 1 = min (b.capacity * b.policy.factor) wordMax := by
  have doubled := b.policy.twice_le b.capacity
  have word : blockMax < wordMax := by decide
  unfold Short goal
  omega

theorem push_full (full : b.len = b.capacity) (present : 1 ≤ b.capacity)
    (small : b.policy.leastCapacity ≤ b.capacity) (grants : m.GrantsAll b.allocator)
    (addressable : b.capacity * b.policy.factor ≤ blockMax) (byte : UInt8) :
    ∃ block m', b.push byte m =
        ⟨.ok (), (b.extend m.heap.base block (b.capacity * b.policy.factor)).write [byte], m'⟩ ∧
      m'.GrantsAll b.allocator ∧ ∀ t ∈ b.allocator.chain, m'.heap.tracker t =
        (m.heap.tracker t).grant (.grow b.capacity (b.capacity * b.policy.factor)) := by
  have doubled := b.policy.twice_le b.capacity
  have word : blockMax < wordMax := by decide
  obtain ⟨short, goal⟩ := goal_full full present (by omega) small
  rw [Nat.min_eq_left (by omega)] at goal
  have growth : b.growth (b.capacity * b.policy.factor) =
      .grow b.capacity (b.capacity * b.policy.factor) := if_neg (by omega)
  obtain ⟨block, m', grown, after, counted⟩ := growTo_granted grants (by omega) addressable
  refine ⟨block, m', ?_, after, growth ▸ counted⟩
  rw [push, append, List.length_singleton, reserve_short short, goal, grown]
  rfl

theorem push_stuck (full : b.len = b.capacity) (present : 1 ≤ b.capacity)
    (inside : b.capacity ≤ blockMax) (small : b.policy.leastCapacity ≤ b.capacity)
    (excessive : blockMax < b.capacity * b.policy.factor) (byte : UInt8) (m : Machine) :
    ∃ e, b.push byte m = ⟨.error e, b, m⟩ := by
  have word : blockMax < wordMax := by decide
  obtain ⟨short, goal⟩ := goal_full full present inside small
  refine ⟨⟨b.goal 1⟩, ?_⟩
  rw [push, append, List.length_singleton, reserve_short short, growTo, if_neg (by omega),
    if_pos (by omega)]
  rfl

structure Reallocates (a : Allocator) (m : Machine) (count : Nat) (m' : Machine) : Prop where
  grants : m'.GrantsAll a
  allocations : ∀ t ∈ a.chain,
    (m'.heap.tracker t).stats.allocations = (m.heap.tracker t).stats.allocations
  reallocations : ∀ t ∈ a.chain,
    (m'.heap.tracker t).stats.reallocations = (m.heap.tracker t).stats.reallocations + count

/--
Where pushing some bytes leads from an empty buffer of capacity `c`: the capacity has been
multiplied `j` times, each time because there was a byte that did not fit, and the bytes are there
as far as there can be a block for them.
-/
structure Reached (c : Nat) (p : GrowthPolicy) (a : Allocator) (pushed : List UInt8) (j : Nat)
    (b : TextBuffer) : Prop where
  allocator : b.allocator = a
  policy : b.policy = p
  capacity : b.capacity = c * p.factor ^ j
  inside : b.len ≤ b.capacity
  addressable : b.capacity ≤ blockMax
  content : b.content = pushed.take b.capacity
  needed : ∀ i < j, c * p.factor ^ i < pushed.length
  exhausted : pushed.length ≤ b.capacity ∨ blockMax < b.capacity * p.factor

namespace Reached
variable {c j : Nat} {p : GrowthPolicy} {a : Allocator} {pushed : List UInt8}

theorem len_eq (reached : Reached c p a pushed j b) : b.len = min b.capacity pushed.length := by
  rw [← content_length b reached.inside, reached.content, List.length_take]

theorem le_capacity (reached : Reached c p a pushed j b) : c ≤ b.capacity := by
  have positive := p.factor_pos
  rw [reached.capacity]
  exact Nat.le_mul_of_pos_right c (Nat.pow_pos positive)

theorem needed_more (reached : Reached c p a pushed j b) (byte : UInt8) (i : Nat) (less : i < j) :
    c * p.factor ^ i < (pushed ++ [byte]).length := by
  have needed := reached.needed i less
  rw [List.length_append, List.length_singleton]
  omega

theorem write_roomy (reached : Reached c p a pushed j b) (roomy : b.len < b.capacity)
    (byte : UInt8) : Reached c p a (pushed ++ [byte]) j (b.write [byte]) := by
  have len := reached.len_eq
  have longer : (pushed ++ [byte]).length = pushed.length + 1 := List.length_append
  have content := content_write b [byte] roomy
  refine ⟨reached.allocator, reached.policy, ?_, ?_, ?_, ?_, reached.needed_more byte, ?_⟩
  all_goals rw [capacity_write]
  · exact reached.capacity
  · exact roomy
  · exact reached.addressable
  · rw [content, reached.content, List.take_of_length_le (by omega),
      List.take_of_length_le (by omega)]
  · omega

theorem write_full (reached : Reached c p a pushed j b) (full : b.len = b.capacity)
    (present : 1 ≤ c) (addressable : b.capacity * p.factor ≤ blockMax) (base : Base) (block : Nat)
    (byte : UInt8) :
    Reached c p a (pushed ++ [byte]) (j + 1)
      ((b.extend base block (b.capacity * p.factor)).write [byte]) := by
  have len := reached.len_eq
  have larger := reached.le_capacity
  have filled := reached.exhausted
  have longer : (pushed ++ [byte]).length = pushed.length + 1 := List.length_append
  have doubled := p.twice_le b.capacity
  have capacity := capacity_extend b base block (b.capacity * p.factor) (by omega)
  have lens : (b.extend base block (b.capacity * p.factor)).len = b.len := rfl
  have roomy : (b.extend base block (b.capacity * p.factor)).len + [byte].length ≤
      (b.extend base block (b.capacity * p.factor)).capacity := by
    rw [capacity, lens, List.length_singleton]
    omega
  have content := content_write _ [byte] roomy
  rw [content_extend b base block _ reached.inside] at content
  refine ⟨reached.allocator, reached.policy, ?_, ?_, ?_, ?_, ?_, ?_⟩
  · rw [capacity_write, capacity, reached.capacity, Nat.mul_assoc, ← Nat.pow_succ]
  · rw [capacity_write]
    exact roomy
  · rw [capacity_write, capacity]
    exact addressable
  · rw [capacity_write, capacity, content, reached.content, List.take_of_length_le (by omega),
      List.take_of_length_le (by omega)]
  · intro i less
    rcases Nat.lt_succ_iff_lt_or_eq.mp less with earlier | rfl
    · exact reached.needed_more byte i earlier
    · rw [← reached.capacity]
      omega
  · rw [capacity_write, capacity]
    omega

theorem stuck (reached : Reached c p a pushed j b) (full : b.len = b.capacity)
    (excessive : blockMax < b.capacity * p.factor) (byte : UInt8) :
    Reached c p a (pushed ++ [byte]) j b := by
  have len := reached.len_eq
  refine ⟨reached.allocator, reached.policy, reached.capacity, reached.inside,
    reached.addressable, ?_, reached.needed_more byte, Or.inr excessive⟩
  rw [reached.content, List.take_append_of_le_length (by omega)]

end Reached

theorem push_reached {c j : Nat} {p : GrowthPolicy} {a : Allocator} {pushed : List UInt8}
    (present : 1 ≤ c) (small : p.leastCapacity ≤ c) (reached : Reached c p a pushed j b)
    (grants : m.GrantsAll a) (byte : UInt8) :
    ∃ count, Reached c p a (pushed ++ [byte]) (j + count) (b.push byte m).target ∧
      Reallocates a m count (b.push byte m).machine ∧
      ((b.push byte m).result = .ok () ∨ (b.push byte m).target.capacity ≤ pushed.length) := by
  have larger := reached.le_capacity
  have unmoved : Reallocates a m 0 m := ⟨grants, fun _ _ => rfl, fun _ _ => rfl⟩
  obtain rfl := reached.allocator
  obtain rfl := reached.policy
  rcases Nat.lt_or_eq_of_le reached.inside with roomy | full
  · rw [push_roomy roomy reached.addressable]
    exact ⟨0, reached.write_roomy roomy byte, unmoved, Or.inl rfl⟩
  · by_cases addressable : b.capacity * b.policy.factor ≤ blockMax
    · obtain ⟨block, m', pushed, after, counted⟩ :=
        push_full full (by omega) (by omega) grants addressable byte
      rw [pushed]
      refine ⟨1, reached.write_full full present addressable _ block byte, ⟨after, ?_, ?_⟩,
        Or.inl rfl⟩
      · intro t tracked
        rw [counted t tracked]
        rfl
      · intro t tracked
        rw [counted t tracked]
        rfl
    · have excessive := Nat.not_le.mp addressable
      obtain ⟨e, failed⟩ := push_stuck full (by omega) reached.addressable (by omega) excessive
        byte m
      have len := reached.len_eq
      have short : b.capacity ≤ pushed.length := by omega
      rw [failed]
      exact ⟨0, reached.stuck full excessive byte, unmoved, Or.inr short⟩

theorem reallocates_trans {a : Allocator} {m' m'' : Machine} {first second : Nat}
    (earlier : Reallocates a m first m') (later : Reallocates a m' second m'') :
    Reallocates a m (first + second) m'' where
  grants := later.grants
  allocations t tracked := (later.allocations t tracked).trans (earlier.allocations t tracked)
  reallocations t tracked := by
    rw [later.reallocations t tracked, earlier.reallocations t tracked, Nat.add_assoc]

theorem capacity_le_of_exhausted {c i j : Nat} {p : GrowthPolicy} {a : Allocator}
    {pushed all : List UInt8} {d : TextBuffer}
    (reached : Reached c p a pushed i b) (excessive : blockMax < b.capacity * p.factor)
    (later : Reached c p a all j d) : d.capacity ≤ b.capacity := by
  have positive := p.factor_pos
  have bounded := later.addressable
  have beyond : blockMax < c * p.factor ^ (i + 1) := by
    rw [Nat.pow_succ, ← Nat.mul_assoc, ← reached.capacity]
    exact excessive
  rw [later.capacity] at bounded ⊢
  rw [reached.capacity]
  apply Nat.mul_le_mul_left
  apply Nat.pow_le_pow_right positive
  by_contra more
  have larger : c * p.factor ^ (i + 1) ≤ c * p.factor ^ j :=
    Nat.mul_le_mul_left c (Nat.pow_le_pow_right positive (by omega))
  omega

theorem run_reached {c j : Nat} {p : GrowthPolicy} {a : Allocator} {pushed : List UInt8}
    (present : 1 ≤ c) (small : p.leastCapacity ≤ c) (reached : Reached c p a pushed j b)
    (grants : m.GrantsAll a) (bytes : List UInt8) :
    ∃ count, Reached c p a (pushed ++ bytes) (j + count) (b.run m (pushes bytes)).2.1 ∧
      Reallocates a m count (b.run m (pushes bytes)).2.2 ∧
      ((pushed ++ bytes).length ≤ (b.run m (pushes bytes)).2.1.capacity →
        ∀ result ∈ (b.run m (pushes bytes)).1, result = .ok ()) := by
  induction bytes generalizing b m j pushed with
  | nil =>
    refine ⟨0, ?_, ⟨grants, fun _ _ => rfl, fun _ _ => rfl⟩, fun _ result member => by cases member⟩
    rw [List.append_nil]
    exact reached
  | cons byte more ih =>
    obtain ⟨first, once, counted, answered⟩ := push_reached present small reached grants byte
    obtain ⟨count, final, further, all⟩ := ih once counted.grants
    rw [List.append_assoc, List.singleton_append] at final all
    refine ⟨first + count, Nat.add_assoc j first count ▸ final,
      reallocates_trans counted further, fun enough result member => ?_⟩
    rcases List.mem_cons.mp member with rfl | later
    -- A push that fails leaves no way to a block for all the bytes.
    · rcases answered with succeeded | short
      · exact succeeded
      · have total : (pushed ++ byte :: more).length = pushed.length + 1 + more.length := by
          rw [List.length_append, List.length_cons]
          omega
        have longer : (pushed ++ [byte]).length = pushed.length + 1 := List.length_append
        rcases once.exhausted with fits | excessive
        · omega
        · have bounded := capacity_le_of_exhausted once excessive final
          have enough : (pushed ++ byte :: more).length ≤
            ((b.push byte m).target.run (b.push byte m).machine (pushes more)).2.1.capacity := enough
          omega
    · exact all enough result later

theorem exponent_le {c i j : Nat} {p q : GrowthPolicy} {a a' : Allocator}
    {pushed pushed' : List UInt8} {d : TextBuffer} (reached : Reached c p a pushed i b)
    (reached' : Reached c q a' pushed' j d) (larger : p.factor ≤ q.factor)
    (same : pushed'.length = pushed.length) : j ≤ i := by
  by_contra more
  have less : i < j := Nat.not_le.mp more
  have power : c * p.factor ^ i ≤ c * q.factor ^ i :=
    Nat.mul_le_mul_left c (Nat.pow_le_pow_left larger i)
  have needed := reached'.needed i less
  have bounded := reached'.addressable
  have capacity := reached.capacity
  rcases reached.exhausted with fits | excessive
  · omega
  · have positive := q.factor_pos
    have beyond : blockMax < c * q.factor ^ j := by
      calc blockMax < c * p.factor ^ i * p.factor := capacity ▸ excessive
        _ = c * p.factor ^ (i + 1) := by rw [Nat.pow_succ, Nat.mul_assoc]
        _ ≤ c * q.factor ^ (i + 1) := Nat.mul_le_mul_left c (Nat.pow_le_pow_left larger _)
        _ ≤ c * q.factor ^ j := Nat.mul_le_mul_left c (Nat.pow_le_pow_right positive less)
    rw [reached'.capacity] at bounded
    omega

theorem exponent_eq {c j k : Nat} {p : GrowthPolicy} {a : Allocator} {pushed : List UInt8}
    (reached : Reached c p a pushed j b) (addressable : c * p.factor ^ k ≤ blockMax)
    (fewest : IsLeast {k | pushed.length ≤ c * p.factor ^ k} k) : j = k := by
  have positive := p.factor_pos
  apply Nat.le_antisymm
  · by_contra more
    have needed := reached.needed k (Nat.not_le.mp more)
    exact absurd fewest.1 (Nat.not_le.mpr needed)
  · rcases reached.exhausted with fits | excessive
    · rw [reached.capacity] at fits
      exact fewest.2 fits
    · by_contra more
      have less : c * p.factor ^ (j + 1) ≤ c * p.factor ^ k :=
        Nat.mul_le_mul_left c (Nat.pow_le_pow_right positive (Nat.not_le.mp more))
      rw [reached.capacity, Nat.mul_assoc, ← Nat.pow_succ] at excessive
      exact absurd (Nat.le_trans less addressable) (Nat.not_le.mpr excessive)

theorem withCapacity_granted {a : Allocator} (grants : m.GrantsAll a) {c : Nat} (present : 1 ≤ c)
    (addressable : c ≤ blockMax) :
    ∃ b m', withCapacity a c m = (.ok b, m') ∧ m'.GrantsAll a ∧
      (∀ p, Reached c p a [] 0 (b.withPolicy p)) ∧
      ∀ t ∈ a.chain, m'.heap.tracker t = (m.heap.tracker t).grant (.fresh c) := by
  obtain ⟨block, m', grown, after, counted⟩ :=
    growTo_granted (b := empty a) grants (Nat.lt_of_lt_of_le Nat.zero_lt_one present) addressable
  have capacity : ((empty a).extend m.heap.base block c).capacity = c :=
    capacity_extend (empty a) m.heap.base block c (Nat.zero_le c)
  refine ⟨(empty a).extend m.heap.base block c, m', ?_, after, ?_, counted⟩
  · rw [withCapacity, grown]
    rfl
  · intro p
    have same : (((empty a).extend m.heap.base block c).withPolicy p).capacity = c := capacity
    refine ⟨rfl, rfl, ?_, Nat.zero_le _, ?_, ?_, fun i less => by omega, Or.inl (Nat.zero_le _)⟩
    · rw [same, Nat.pow_zero, Nat.mul_one]
    · rw [same]
      exact addressable
    · rw [List.take_nil]
      exact content_extend (empty a) m.heap.base block c (Nat.zero_le _)

/--
Bytes pushed one at a time into a new buffer, on a machine that grants everything: if the least
power with which they fit can be addressed, all of them are pushed, the buffer has just that
capacity, and every tracker counts one allocation and as many reallocations as the exponent says.
With a larger factor the same number of bytes takes no more reallocations, whether they fit or not.
-/
theorem pushes_reallocate {a : Allocator} {c f least k : Nat} {bytes : List UInt8} {m : Machine}
    (present : 1 ≤ c) (doubling : 2 ≤ f) (small : least ≤ c) (grants : m.GrantsAll a)
    (fewest : IsLeast {k | bytes.length ≤ c * f ^ k} k) (addressable : c * f ^ k ≤ blockMax) :
    ∃ b m', withCapacity a c m = (.ok b, m') ∧
      let ran := (b.withPolicy (.make f least)).run m' (pushes bytes)
      (∀ result ∈ ran.1, result = .ok ()) ∧ ran.2.1.capacity = c * f ^ k ∧
      ran.2.1.content = bytes ∧
      (∀ t ∈ a.chain,
        (ran.2.2.heap.tracker t).stats.allocations = (m.heap.tracker t).stats.allocations + 1 ∧
        (ran.2.2.heap.tracker t).stats.reallocations =
          (m.heap.tracker t).stats.reallocations + k) ∧
      ∀ f' least' bytes', f ≤ f' → least' ≤ c → bytes'.length = bytes.length →
        ∀ t ∈ a.chain,
          (((b.withPolicy (.make f' least')).run m' (pushes bytes')).2.2.heap.tracker
            t).stats.reallocations ≤ (ran.2.2.heap.tracker t).stats.reallocations := by
  have factor : (GrowthPolicy.make f least).factor = f := Nat.max_eq_left doubling
  have smallest : c ≤ blockMax :=
    Nat.le_trans (Nat.le_mul_of_pos_right c (Nat.pow_pos (by omega))) addressable
  obtain ⟨b, m', made, after, start, counted⟩ := withCapacity_granted grants present smallest
  obtain ⟨count, final, counts, answers⟩ :=
    run_reached present small (start (.make f least)) after bytes
  rw [Nat.zero_add] at final
  obtain rfl : count = k := exponent_eq final (by rw [factor]; exact addressable)
    (by rw [factor]; exact fewest)
  have capacity := final.capacity
  have content := final.content
  rw [factor] at capacity
  rw [List.nil_append] at content answers
  have fits : bytes.length ≤
      ((b.withPolicy (.make f least)).run m' (pushes bytes)).2.1.capacity := by
    rw [capacity]
    exact fewest.1
  refine ⟨b, m', made, answers fits, capacity, ?_, ?_, ?_⟩
  · rw [content, List.take_of_length_le fits]
  · intro t tracked
    rw [counts.allocations t tracked, counts.reallocations t tracked, counted t tracked]
    exact ⟨rfl, rfl⟩
  · intro f' least' bytes' larger small' same t tracked
    obtain ⟨count', final', counts', _⟩ :=
      run_reached present small' (start (.make f' least')) after bytes'
    have factors : (GrowthPolicy.make f least).factor ≤ (GrowthPolicy.make f' least').factor := by
      rw [factor]
      exact Nat.le_trans larger (Nat.le_max_left f' 2)
    have fewer := exponent_le final final' factors (by simpa using same)
    rw [counts'.reallocations t tracked, counts.reallocations t tracked]
    omega

def openHanded : Base where
  accepts _ _ := true
  scratch _ _ := 0

/-- Thirteen bytes from capacity three: twelve would have fitted after two reallocations. -/
theorem pushes_reallocate_thirteen :
    (Machine.start openHanded).GrantsAll (.tracked 0) ∧
    ∃ b m', withCapacity (.tracked 0) 3 (.start openHanded) = (.ok b, m') ∧
      let ran := (b.withPolicy (.make 2 1)).run m' (pushes ((List.range 13).map UInt8.ofNat))
      ran.2.1.capacity = 24 ∧ ran.2.1.content = (List.range 13).map UInt8.ofNat ∧
      (ran.2.2.heap.tracker 0).stats.allocations = 1 ∧
      (ran.2.2.heap.tracker 0).stats.reallocations = 3 := by
  have grants : (Machine.start openHanded).GrantsAll (.tracked 0) :=
    ⟨fun _ _ => rfl, fun _ _ => rfl⟩
  have fewest : IsLeast {k | ((List.range 13).map UInt8.ofNat).length ≤ 3 * 2 ^ k} 3 := by
    refine ⟨by decide, fun j fits => ?_⟩
    by_contra less
    have power := Nat.pow_le_pow_right Nat.two_pos (Nat.le_of_lt_succ (Nat.not_le.mp less))
    have fits : 13 ≤ 3 * 2 ^ j := by simpa using fits
    omega
  obtain ⟨b, m', made, _, capacity, content, counts, _⟩ :=
    pushes_reallocate (show 1 ≤ 3 by decide) (show 2 ≤ 2 by decide) (show 1 ≤ 3 by decide) grants
      fewest (by decide)
  obtain ⟨allocations, reallocations⟩ := counts 0 (by decide)
  exact ⟨grants, b, m', made, capacity, content, allocations, reallocations⟩

end TextBuffer
end TrackedValues
