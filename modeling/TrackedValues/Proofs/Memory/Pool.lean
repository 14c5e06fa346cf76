import Mathlib.Logic.Relation
import TrackedValues.Proofs.Memory.Holdings

/-!
Raw blocks on a heap. A pool is a heap with the blocks that are live on it, and a log of every
event that trackers have recorded. Whatever is done with blocks advances the pool by events of
four kinds, so that what every event keeps holds of every pool that can arise.
-/
namespace TrackedValues

structure Moment where
  heap : Heap
  blocks : List Holding

inductive Recorded
  | granted (r : Request)
  | released (size : Nat)
  deriving DecidableEq, Repr

/-- One event, the handle whose trackers recorded it, and the moments before and after it. -/
structure Entry where
  through : Allocator
  event : Recorded
  before : Moment
  after : Moment

structure Pool where
  now : Moment
  /-- Recorded events, the newest first. -/
  log : List Entry := []

namespace Pool
variable {H : Type}

/--
What is done with blocks. Live blocks are named by their position; a block can only be asked to
grow by some more bytes, and to be replaced by one of any size.
-/
inductive Action (H : Type)
  | allocate (through : H) (size : Nat)
  | grow (n more : Nat)
  | deallocate (n : Nat)
  | replace (n size : Nat)
  | setLimit (t : TrackerId) (limit : Option Nat)
  deriving DecidableEq, Repr

def start (base : Base) : Pool := { now := ⟨{ base := base }, []⟩ }

def stats (p : Pool) (t : TrackerId) : Stats := (p.now.heap.tracker t).stats

def on (p : Pool) (h : Heap) : Pool := { p with now := ⟨h, p.now.blocks⟩ }

def record (p : Pool) (a : Allocator) (event : Recorded) (after : Moment) : Pool :=
  ⟨after, ⟨a, event, p.now, after⟩ :: p.log⟩

def allocate (p : Pool) (a : Allocator) (size : Nat) : Pool :=
  match p.now.heap.request a (.fresh size) with
  | (some _, h) => p.record a (.granted (.fresh size)) ⟨h, ⟨a, size⟩ :: p.now.blocks⟩
  | (none, h) => p.on h

def grow (p : Pool) (n more : Nat) : Pool :=
  match p.now.blocks[n]? with
  | none => p
  | some b =>
    let longer : Holding := ⟨b.allocator, b.size + more⟩
    match p.now.heap.request b.allocator (.grow b.size longer.size) with
    | (some _, h) =>
      p.record b.allocator (.granted (.grow b.size longer.size)) ⟨h, p.now.blocks.set n longer⟩
    | (none, h) => p.on h

def deallocate (p : Pool) (n : Nat) : Pool :=
  match p.now.blocks[n]? with
  | none => p
  | some b =>
    p.record b.allocator (.released b.size)
      ⟨p.now.heap.release b.allocator b.size, p.now.blocks.eraseIdx n⟩

def replace (p : Pool) (n size : Nat) : Pool :=
  match p.now.blocks[n]? with
  | none => p
  | some b =>
    let fresh : Holding := ⟨b.allocator, size⟩
    match p.now.heap.replace b.allocator b.size size with
    | (some _, h) =>
      let between := (p.now.heap.request b.allocator (.fresh size)).2
      let both := p.record b.allocator (.granted (.fresh size)) ⟨between, fresh :: p.now.blocks⟩
      both.record b.allocator (.released b.size) ⟨h, p.now.blocks.set n fresh⟩
    | (none, h) => p.on h

def perform (handle : H → Allocator) (p : Pool) : Action H → Pool
  | .allocate through size => p.allocate (handle through) size
  | .grow n more => p.grow n more
  | .deallocate n => p.deallocate n
  | .replace n size => p.replace n size
  | .setLimit t limit => p.on (p.now.heap.setLimit t limit)

def run (handle : H → Allocator) (base : Base) (actions : List (Action H)) : Pool :=
  actions.foldl (perform handle) (start base)

/-- Everything that can happen to a pool at once; `within` says which handles are in use. -/
inductive Advances (within : Allocator → Prop) (p : Pool) : Pool → Prop
  | quiet {h : Heap} (same : ∀ t, (h.tracker t).stats = p.stats t) : Advances within p (p.on h)
  | obtained {a : Allocator} {size block : Nat} {h : Heap} (permitted : within a)
    (granted : p.now.heap.request a (.fresh size) = (some block, h)) :
    Advances within p (p.record a (.granted (.fresh size)) ⟨h, ⟨a, size⟩ :: p.now.blocks⟩)
  | grown {a : Allocator} {old new block : Nat} {h : Heap} {others blocks : List Holding}
    (longer : old ≤ new) (held : p.now.blocks.Perm (⟨a, old⟩ :: others))
    (left : blocks.Perm (⟨a, new⟩ :: others))
    (granted : p.now.heap.request a (.grow old new) = (some block, h)) :
    Advances within p (p.record a (.granted (.grow old new)) ⟨h, blocks⟩)
  | returned {a : Allocator} {size : Nat} {blocks : List Holding}
    (held : p.now.blocks.Perm (⟨a, size⟩ :: blocks)) :
    Advances within p (p.record a (.released size) ⟨p.now.heap.release a size, blocks⟩)

abbrev Reaches (within : Allocator → Prop) : Pool → Pool → Prop :=
  Relation.ReflTransGen (Advances within)

variable {within : Allocator → Prop}

theorem advances_refused (p : Pool) {a : Allocator} {r : Request} {h : Heap}
    (refused : p.now.heap.request a r = (none, h)) : Advances within p (p.on h) :=
  .quiet fun t => by rw [Heap.tracker_refused refused t, stats]

theorem advances_setLimit (p : Pool) (t : TrackerId) (limit : Option Nat) :
    Advances within p (p.on (p.now.heap.setLimit t limit)) := by
  refine .quiet fun u => ?_
  rw [Heap.setLimit, Heap.tracker_update, stats]
  split
  · rename_i same
    rw [same]
  · rfl

theorem reaches_allocate (p : Pool) {a : Allocator} (permitted : within a) (size : Nat) :
    Reaches within p (p.allocate a size) := by
  unfold allocate
  split
  · rename_i granted
    exact .single (.obtained permitted granted)
  · rename_i refused
    exact .single (advances_refused p refused)

theorem reaches_grow (p : Pool) (n more : Nat) : Reaches within p (p.grow n more) := by
  unfold grow
  split
  · exact .refl
  · rename_i b found
    obtain ⟨held, left⟩ := perm_eraseIdx found
    dsimp only
    split
    · rename_i granted
      exact .single (.grown (Nat.le_add_right _ _) held (left _) granted)
    · rename_i refused
      exact .single (advances_refused p refused)

theorem reaches_deallocate (p : Pool) (n : Nat) : Reaches within p (p.deallocate n) := by
  unfold deallocate
  split
  · exact .refl
  · rename_i b found
    exact .single (.returned (perm_eraseIdx found).1)

theorem reaches_replace (p : Pool) (permitted : ∀ b ∈ p.now.blocks, within b.allocator)
    (n size : Nat) : Reaches within p (p.replace n size) := by
  unfold replace
  split
  · exact .refl
  · rename_i b found
    obtain ⟨held, left⟩ := perm_eraseIdx found
    have through := permitted b (List.mem_of_getElem? found)
    dsimp only
    unfold Heap.replace
    cases answer : p.now.heap.request b.allocator (.fresh size) with
    | mk outcome h =>
      cases outcome with
      | none => exact .single (advances_refused p answer)
      | some block =>
        -- The fresh block stands in front of the others until the old one is returned.
        have fresh := held.cons ⟨b.allocator, size⟩
        have swapped := List.Perm.swap b ⟨b.allocator, size⟩ (p.now.blocks.eraseIdx n)
        have kept := (left ⟨b.allocator, size⟩).symm.cons b
        have both := Relation.ReflTransGen.single (Advances.obtained through answer)
        exact both.tail (.returned (fresh.trans (swapped.trans kept)))

theorem within_advances {p p' : Pool} (permitted : ∀ b ∈ p.now.blocks, within b.allocator)
    (advances : Advances within p p') : ∀ b ∈ p'.now.blocks, within b.allocator := by
  intro b member
  cases advances with
  | quiet same => exact permitted b member
  | obtained through granted =>
    rcases List.mem_cons.mp member with rfl | before
    · exact through
    · exact permitted b before
  | @grown a old new block h others blocks longer held left granted =>
    rcases List.mem_cons.mp (left.subset member) with rfl | before
    · exact permitted ⟨a, old⟩ (held.symm.subset List.mem_cons_self)
    · exact permitted b (held.symm.subset (List.mem_cons_of_mem _ before))
  | returned held => exact permitted b (held.symm.subset (List.mem_cons_of_mem _ member))

theorem within_reaches {p p' : Pool} (permitted : ∀ b ∈ p.now.blocks, within b.allocator)
    (reaches : Reaches within p p') : ∀ b ∈ p'.now.blocks, within b.allocator := by
  induction reaches with
  | refl => exact permitted
  | tail _ advances ih => exact within_advances ih advances

theorem reaches_perform {handle : H → Allocator} (permitted : ∀ x, within (handle x)) (p : Pool)
    (blocks : ∀ b ∈ p.now.blocks, within b.allocator) (action : Action H) :
    Reaches within p (p.perform handle action) := by
  cases action with
  | allocate through size => exact p.reaches_allocate (permitted through) size
  | grow n more => exact p.reaches_grow n more
  | deallocate n => exact p.reaches_deallocate n
  | replace n size => exact p.reaches_replace blocks n size
  | setLimit t limit => exact .single (p.advances_setLimit t limit)

theorem reaches_actions {handle : H → Allocator} (permitted : ∀ x, within (handle x))
    (actions : List (Action H)) (p : Pool) (blocks : ∀ b ∈ p.now.blocks, within b.allocator) :
    Reaches within p (actions.foldl (perform handle) p) := by
  induction actions generalizing p with
  | nil => exact .refl
  | cons action more ih =>
    have first := reaches_perform permitted p blocks action
    exact first.trans (ih _ (within_reaches blocks first))

theorem run_induction {handle : H → Allocator} (permitted : ∀ x, within (handle x)) {base : Base}
    {holds : Pool → Prop} (initial : holds (start base))
    (keeps : ∀ {p p'}, Advances within p p' → holds p → holds p') (actions : List (Action H)) :
    holds (run handle base actions) := by
  have reaches := reaches_actions permitted actions (start base) (by simp [start])
  unfold run
  generalize actions.foldl (perform handle) (start base) = p at reaches ⊢
  induction reaches with
  | refl => exact initial
  | tail _ advances ih => exact keeps advances ih

theorem accounts_advances {p p' : Pool} (advances : Advances within p p')
    (accounts : p.now.heap.Accounts p.now.blocks) : p'.now.heap.Accounts p'.now.blocks := by
  cases advances with
  | quiet same => exact Heap.accounts_frame accounts same
  | obtained _ granted => exact Heap.accounts_fresh accounts granted
  | grown longer held left granted =>
    have before := Heap.accounts_perm accounts held
    exact Heap.accounts_perm (Heap.accounts_grow before longer granted) left.symm
  | returned held => exact Heap.accounts_release (Heap.accounts_perm accounts held)

theorem run_accounts_blocks (handle : H → Allocator) (base : Base) (actions : List (Action H)) :
    (run handle base actions).now.heap.Accounts (run handle base actions).now.blocks :=
  @run_induction H (fun _ => True) handle (fun _ => trivial) base _ (Heap.accounts_start base)
    accounts_advances actions

end Pool
end TrackedValues
