import TrackedValues.Proofs.Buffer.Stock

/-!
Replaying a log. The events that the buffers of a stock report tell what the allocator was asked
for: every granted request lengthened one buffer and every refused one is reported, so the counts
of the trackers and the capacities of all buffers can be read off the log.
-/
namespace TrackedValues.Stock

/-- A dealing, with the stock and the machine that it meets. -/
structure Turn where
  stock : Stock
  machine : Machine
  dealing : Dealing

namespace Turn

def outcome (a : Allocator) (t : Turn) : Outcome AllocationError Stock Unit :=
  t.stock.perform a t.dealing t.machine

/-- The events that are reported, each with the number of the buffer that it concerns. -/
def entries (a : Allocator) (t : Turn) : List (Nat × Event) :=
  ((t.outcome a).machine.eventsAfter t.machine.events.length).map (t.dealing.number t.stock, ·)

def refused (a : Allocator) (t : Turn) : Bool :=
  (t.dealing.asks t.stock).any fun r => (t.machine.request a r).1.isNone

end Turn

def run (a : Allocator) (s : Stock) (m : Machine) : List Dealing → List Turn × Stock × Machine
  | [] => ([], s, m)
  | d :: more =>
    let o := s.perform a d m
    let rest := run a o.target o.machine more
    (⟨s, m, d⟩ :: rest.1, rest.2)

def log (a : Allocator) (turns : List Turn) : List (Nat × Event) := turns.flatMap (Turn.entries a)

structure Lengthening where
  number : Nat
  old : Nat
  new : Nat
  len : Nat

def lengthenings (log : List (Nat × Event)) : List Lengthening :=
  log.filterMap fun
    | (n, .bufferGrown old new len) => some ⟨n, old, new, len⟩
    | _ => none

def refusals (log : List (Nat × Event)) : List Nat :=
  log.filterMap fun
    | (_, .bufferRefused requested) => some requested
    | _ => none

/-- Each takes up the capacity where the one before left it, and leads to a larger one. -/
inductive Chained : Nat → List Lengthening → Nat → Prop
  | nil (capacity : Nat) : Chained capacity [] capacity
  | cons {l : Lengthening} {more : List Lengthening} {capacity : Nat} (longer : l.old < l.new)
    (rest : Chained l.new more capacity) : Chained l.old (l :: more) capacity

theorem chained_append {start between capacity : Nat} {first second : List Lengthening}
    (before : Chained start first between) (after : Chained between second capacity) :
    Chained start (first ++ second) capacity := by
  induction before with
  | nil => exact after
  | cons longer _ ih => exact .cons longer (ih after)

theorem chained_le {start capacity : Nat} {ls : List Lengthening}
    (chained : Chained start ls capacity) : start ≤ capacity := by
  induction chained with
  | nil => exact Nat.le_refl _
  | cons longer _ ih => exact Nat.le_trans (Nat.le_of_lt longer) ih

theorem eq_nil_of_chained {start : Nat} {ls : List Lengthening}
    (chained : Chained start ls start) : ls = [] := by
  cases chained with
  | nil => rfl
  | cons longer rest => exact absurd (chained_le rest) (Nat.not_le.mpr longer)

/-- What a log says about the way from some capacities on a machine to others on another one. -/
structure Accords (a : Allocator) (log : List (Nat × Event)) (before : List Nat) (m : Machine)
    (after : List Nat) (m' : Machine) : Prop where
  logged : m'.events.reverse = m.events.reverse ++ log.map Prod.snd
  granted : ∀ t ∈ a.chain,
    (m'.heap.tracker t).stats.allocations + (m'.heap.tracker t).stats.reallocations =
      (m.heap.tracker t).stats.allocations + (m.heap.tracker t).stats.reallocations +
        (lengthenings log).length
  fresh : ∀ t ∈ a.chain, (m'.heap.tracker t).stats.allocations =
    (m.heap.tracker t).stats.allocations + (lengthenings log).countP (·.old = 0)
  chained : ∀ n, Chained (before.getD n 0) ((lengthenings log).filter (·.number = n))
    (after.getD n 0)
  inside : ∀ l ∈ lengthenings log, l.len ≤ l.old
  total : after.sum = before.sum + ((lengthenings log).map fun l => l.new - l.old).sum

variable {a : Allocator} {first second : List (Nat × Event)} {before between after : List Nat}
  {m m' m'' : Machine}

theorem lengthenings_append (first second : List (Nat × Event)) :
    lengthenings (first ++ second) = lengthenings first ++ lengthenings second :=
  List.filterMap_append

theorem refusals_append (first second : List (Nat × Event)) :
    refusals (first ++ second) = refusals first ++ refusals second :=
  List.filterMap_append

theorem accords_refl (a : Allocator) (cs : List Nat) (m : Machine) : Accords a [] cs m cs m where
  logged := (List.append_nil _).symm
  granted _ _ := rfl
  fresh _ _ := rfl
  chained _ := .nil _
  inside _ member := nomatch member
  total := rfl

theorem accords_trans (earlier : Accords a first before m between m')
    (later : Accords a second between m' after m'') :
    Accords a (first ++ second) before m after m'' := by
  constructor
  · rw [later.logged, earlier.logged, List.map_append, List.append_assoc]
  · intro t tracked
    rw [later.granted t tracked, earlier.granted t tracked, lengthenings_append,
      List.length_append, Nat.add_assoc]
  · intro t tracked
    rw [later.fresh t tracked, earlier.fresh t tracked, lengthenings_append, List.countP_append,
      Nat.add_assoc]
  · intro n
    rw [lengthenings_append, List.filter_append]
    exact chained_append (earlier.chained n) (later.chained n)
  · intro l member
    rw [lengthenings_append] at member
    exact (List.mem_append.mp member).elim (earlier.inside l) (later.inside l)
  · rw [later.total, earlier.total, lengthenings_append, List.map_append, List.sum_append,
      Nat.add_assoc]

theorem accords_unchanged {entries : List (Nat × Event)} {n : Nat}
    (silent : lengthenings entries = [])
    (logged : m'.events.reverse = m.events.reverse ++ entries.map Prod.snd)
    (stats : ∀ t, (m'.heap.tracker t).stats.allocations = (m.heap.tracker t).stats.allocations ∧
      (m'.heap.tracker t).stats.reallocations = (m.heap.tracker t).stats.reallocations)
    (changes : Changes n (before.getD n 0) before after) :
    Accords a entries before m after m' := by
  refine ⟨logged, ?_, ?_, ?_, ?_, ?_⟩
  · intro t _
    rw [(stats t).1, (stats t).2, silent]
    rfl
  · intro t _
    rw [(stats t).1, silent]
    rfl
  · intro k
    have same : after.getD k 0 = before.getD k 0 := by
      by_cases here : k = n
      · rw [here]
        exact changes.here
      · exact changes.others k here
    rw [silent, same]
    exact .nil _
  · rw [silent]
    exact nofun
  · rw [silent]
    exact Nat.add_right_cancel changes.total

theorem granted_growth {b : TextBuffer} {target block : Nat}
    (granted : m.request b.allocator (b.growth target) = (some block, m')) {t : TrackerId}
    (tracked : t ∈ b.allocator.chain) :
    (m'.heap.tracker t).stats.allocations + (m'.heap.tracker t).stats.reallocations =
      (m.heap.tracker t).stats.allocations + (m.heap.tracker t).stats.reallocations + 1 ∧
    (m'.heap.tracker t).stats.allocations =
      (m.heap.tracker t).stats.allocations + if b.capacity = 0 then 1 else 0 := by
  have after : m'.heap.tracker t = (m.heap.tracker t).grant (b.growth target) := by
    simp only [Machine.request, Prod.mk.injEq] at granted
    rw [← granted.2]
    exact (Heap.tracker_granted b.allocator.nodup (Prod.ext granted.1 rfl) t).trans (if_pos tracked)
  rw [after, TextBuffer.growth]
  split
  · exact ⟨Nat.add_right_comm _ _ _, rfl⟩
  · exact ⟨rfl, rfl⟩

theorem accords_grown {b : TextBuffer} {n target block : Nat} (longer : b.capacity < target)
    (granted : m.request b.allocator (b.growth target) = (some block, m'))
    (inside : b.len ≤ b.capacity) (here : before.getD n 0 = b.capacity)
    (changes : Changes n target before after)
    (logged : (m'.emit (.bufferGrown b.capacity target b.len)).events.reverse =
      m.events.reverse ++ [.bufferGrown b.capacity target b.len]) :
    Accords b.allocator [(n, .bufferGrown b.capacity target b.len)] before m after
      (m'.emit (.bufferGrown b.capacity target b.len)) := by
  refine ⟨logged, ?_, ?_, ?_, ?_, ?_⟩
  · intro t tracked
    exact (granted_growth granted tracked).1
  · intro t tracked
    exact (granted_growth granted tracked).2.trans (by simp [lengthenings])
  · intro k
    by_cases same : k = n
    · subst same
      have only : (lengthenings [(k, .bufferGrown b.capacity target b.len)]).filter
          (·.number = k) = [⟨k, b.capacity, target, b.len⟩] := by simp [lengthenings]
      rw [only, changes.here, here]
      exact Chained.cons (l := ⟨k, b.capacity, target, b.len⟩) longer (.nil target)
    · have none : (lengthenings [(n, .bufferGrown b.capacity target b.len)]).filter
          (·.number = k) = [] := by simp [lengthenings, Ne.symm same]
      rw [none, changes.others k same]
      exact .nil _
  · intro l member
    rw [List.mem_singleton.mp member]
    exact inside
  · have total := changes.total
    simp only [lengthenings, List.filterMap_cons, List.filterMap_nil, List.map_cons, List.map_nil,
      List.sum_cons, List.sum_nil]
    omega

theorem accords_perform {s : Stock} (sound : s.Sound a) (d : Dealing) (m : Machine) :
    Accords a (Turn.entries a ⟨s, m, d⟩) s.capacities m (s.perform a d m).target.capacities
      (s.perform a d m).machine := by
  obtain ⟨b, capacity, rfl, inside, before, lengthens, changes⟩ := turns sound d m
  have events := TextBuffer.events_of_lengthens lengthens
  have logged := congrArg List.reverse events
  unfold Turn.entries Turn.outcome
  rw [Machine.eventsAfter_append events]
  rw [List.reverse_append] at logged
  generalize (s.perform b.allocator d m).machine = m' at *
  generalize (s.perform b.allocator d m).result = result at *
  generalize d.asks s = asked at *
  cases lengthens with
  | quiet _ _ _ stats => exact accords_unchanged rfl logged stats (before ▸ changes)
  | excessive _ _ => exact accords_unchanged rfl logged (fun _ => ⟨rfl, rfl⟩) (before ▸ changes)
  | granted _ longer granted => exact accords_grown longer granted inside before changes logged
  | @refused target m' _ refused =>
    apply accords_unchanged rfl logged _ (before ▸ changes)
    intro t
    have same := Machine.tracker_refused refused t
    exact ⟨congrArg (·.stats.allocations) same, congrArg (·.stats.reallocations) same⟩

/-- What a turn reports of its request, and how it fails without a report. -/
structure Turn.Reports (a : Allocator) (t : Turn) : Prop where
  asks_iff : ∀ r, AsksFor a r (t.stock.perform a t.dealing) ↔ t.dealing.asks t.stock = some r
  refused : (refusals (t.entries a)).length = if t.refused a then 1 else 0
  excused : (∃ e, (t.outcome a).result = .error e) ∧ refusals (t.entries a) = [] ↔
    t.dealing.Overreaches t.stock

theorem reports {s : Stock} (sound : s.Sound a) (d : Dealing) (m : Machine) :
    Turn.Reports a ⟨s, m, d⟩ := by
  have asks : ∀ r, AsksFor a r (s.perform a d) ↔ d.asks s = some r := by
    have lengthens : ∀ m, ∃ b : TextBuffer, b.allocator = a ∧ ∃ capacity,
        b.Lengthens m (d.Overreaches s) (d.asks s) (s.perform a d m).result capacity
          (s.perform a d m).machine := by
      intro m
      obtain ⟨b, capacity, turns⟩ := turns sound d m
      exact ⟨b, turns.allocator, capacity, turns.lengthens⟩
    exact TextBuffer.asksFor_iff_of_lengthens lengthens
  suffices rest : (refusals (Turn.entries a ⟨s, m, d⟩)).length =
        (if Turn.refused a ⟨s, m, d⟩ then 1 else 0) ∧
      ((∃ e, (s.perform a d m).result = .error e) ∧ refusals (Turn.entries a ⟨s, m, d⟩) = [] ↔
        d.Overreaches s) from ⟨asks, rest.1, rest.2⟩
  obtain ⟨b, capacity, rfl, _, _, lengthens, _⟩ := turns sound d m
  have events := TextBuffer.events_of_lengthens lengthens
  unfold Turn.entries Turn.outcome Turn.refused
  rw [Machine.eventsAfter_append events]
  generalize (s.perform b.allocator d m).machine = m' at *
  generalize (s.perform b.allocator d m).result = result at *
  generalize d.Overreaches s = excess at *
  generalize d.asks s = asked at *
  cases lengthens with
  | quiet moderate _ _ _ => simp [refusals, TextBuffer.reported, moderate]
  | excessive excessive _ => simp [refusals, TextBuffer.reported, excessive]
  | granted moderate _ granted => simp [refusals, TextBuffer.reported, moderate, granted]
  | refused moderate refused => simp [refusals, TextBuffer.reported, moderate, refused]

theorem sound_run {s : Stock} (sound : s.Sound a) (m : Machine) (dealings : List Dealing) :
    ∀ t ∈ (run a s m dealings).1, t.stock.Sound a := by
  induction dealings generalizing s m with
  | nil => exact nofun
  | cons d more ih =>
    intro t member
    rcases List.mem_cons.mp member with rfl | later
    · exact sound
    · exact ih (keeps_perform sound d m).sound _ t later

theorem keeps_run {s : Stock} (sound : s.Sound a) (m : Machine) (dealings : List Dealing) :
    Keeps a s m ⟨.ok (), (run a s m dealings).2.1, (run a s m dealings).2.2⟩ := by
  induction dealings generalizing s m with
  | nil => exact keeps_unchanged sound m _
  | cons d more ih =>
    have once := keeps_perform sound d m
    have later := ih once.sound (s.perform a d m).machine
    exact ⟨Machine.exchanges_trans once.exchanges later.exchanges, later.sound⟩

theorem accords_run {s : Stock} (sound : s.Sound a) (m : Machine) (dealings : List Dealing) :
    Accords a (log a (run a s m dealings).1) s.capacities m
      (run a s m dealings).2.1.capacities (run a s m dealings).2.2 := by
  induction dealings generalizing s m with
  | nil => exact accords_refl a s.capacities m
  | cons d more ih =>
    exact accords_trans (accords_perform sound d m) (ih (keeps_perform sound d m).sound _)

theorem refusals_log {turns : List Turn} (reports : ∀ t ∈ turns, t.Reports a) :
    (refusals (log a turns)).length = turns.countP (Turn.refused a) := by
  induction turns with
  | nil => rfl
  | cons t more ih =>
    have first := (reports t List.mem_cons_self).refused
    have rest := ih fun u member => reports u (List.mem_cons_of_mem t member)
    have both : log a (t :: more) = t.entries a ++ log a more := rfl
    rw [both, refusals_append, List.length_append, first, rest, List.countP_cons, Nat.add_comm]

/--
The log of some turns, replayed: it is all that was reported, and it tells the counts of every
tracker, the capacities of all buffers and the number of refused requests.
-/
structure Replays (a : Allocator) (turns : List Turn) (s : Stock) (m : Machine) : Prop where
  logged : m.events.reverse = (log a turns).map Prod.snd
  granted : ∀ t ∈ a.chain, (lengthenings (log a turns)).length =
    (m.heap.tracker t).stats.allocations + (m.heap.tracker t).stats.reallocations
  fresh : ∀ t ∈ a.chain, (lengthenings (log a turns)).countP (·.old = 0) =
    (m.heap.tracker t).stats.allocations
  known : ∀ l ∈ lengthenings (log a turns), l.number < s.length
  chained : ∀ n i, s[n]? = some i →
    Chained 0 ((lengthenings (log a turns)).filter (·.number = n)) i.buffer.capacity
  inside : ∀ l ∈ lengthenings (log a turns), l.len ≤ l.old
  bytes : ∀ t ∈ a.chain, ((lengthenings (log a turns)).map fun l => l.new - l.old).sum =
    (m.heap.tracker t).stats.liveBytes + s.dropped
  refused : (refusals (log a turns)).length = turns.countP (Turn.refused a)
  asks_iff : ∀ t ∈ turns, ∀ r,
    AsksFor a r (t.stock.perform a t.dealing) ↔ t.dealing.asks t.stock = some r
  excused : ∀ t ∈ turns, (∃ e, (t.outcome a).result = .error e) ∧ refusals (t.entries a) = [] ↔
    t.dealing.Overreaches t.stock

/--
Whatever is done with any number of buffers on one handle, whichever requests the allocator below
refuses and however limits change: the events replay what became of the storage.
-/
theorem run_replays (a : Allocator) (base : Base) (dealings : List Dealing) :
    Replays a (run a [] (.start base) dealings).1 (run a [] (.start base) dealings).2.1
      (run a [] (.start base) dealings).2.2 := by
  have nothing : Sound a [] := nofun
  have accords := accords_run nothing (.start base) dealings
  have keeps := keeps_run nothing (.start base) dealings
  have reports : ∀ t ∈ (run a [] (.start base) dealings).1, t.Reports a := fun t member =>
    reports (sound_run nothing (.start base) dealings t member) t.dealing t.machine
  have accounts := keeps.exchanges [] (Heap.accounts_start base)
  generalize (run a [] (.start base) dealings).1 = turns at *
  generalize (run a [] (.start base) dealings).2.1 = s at *
  generalize (run a [] (.start base) dealings).2.2 = m at *
  constructor
  · exact accords.logged
  · intro t tracked
    exact ((accords.granted t tracked).trans (Nat.zero_add _)).symm
  · intro t tracked
    exact ((accords.fresh t tracked).trans (Nat.zero_add _)).symm
  · intro l member
    by_contra outside
    have vacant : s.capacities.getD l.number 0 = 0 := by
      rw [List.getD_eq_getElem?_getD, List.getElem?_eq_none (by simpa [capacities] using outside)]
      rfl
    have chained := accords.chained l.number
    rw [vacant] at chained
    have here : l ∈ (lengthenings (log a turns)).filter (·.number = l.number) :=
      List.mem_filter.mpr ⟨member, decide_eq_true rfl⟩
    rw [eq_nil_of_chained chained] at here
    cases here
  · intro n i found
    have chained := accords.chained n
    have capacity : s.capacities.getD n 0 = i.buffer.capacity := by
      simp [capacities, List.getD_eq_getElem?_getD, found, Item.capacity]
    rw [capacity] at chained
    exact chained
  · exact accords.inside
  · intro t tracked
    have held := bytes_holdings keeps.sound tracked
    have live := (accounts t).1
    rw [List.append_nil] at live
    rw [live, held]
    exact (accords.total.trans (Nat.zero_add _)).symm
  · exact refusals_log reports
  · exact fun t member => (reports t member).asks_iff
  · exact fun t member => (reports t member).excused

end TrackedValues.Stock
