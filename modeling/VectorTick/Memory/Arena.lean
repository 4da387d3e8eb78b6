import VectorTick.Foundation.Regions
import VectorTick.Foundation.Transitions

/-! The arena: blocks from `malloc`, and an offset into the last of them that only grows.

A request is rounded up to its alignment. The offset it is placed at is not: it is what
the requests before have left. -/

set_option autoImplicit false

namespace VectorTick

open Foundation

def alignUp (value alignment : UInt64) : UInt64 :=
  let mask := alignment - 1
  (value + mask) &&& ~~~mask

namespace Arena

/-- `alignof(std::max_align_t)`. -/
def maxAlignment : UInt64 := 16

def defaultBlockSize : UInt64 := 64 * 1024

end Arena

/-- A block as the arena knows it: where `malloc` has put it, and the size of its data. -/
structure Arena.Block where
  address : UInt64
  size : UInt64
  deriving DecidableEq, Repr

/-- The current block is the first; the others are reached through `prev`. -/
structure Arena where
  blockSize : UInt64
  blocks : List Arena.Block
  currentOffset : UInt64
  totalAllocated : UInt64
  deriving DecidableEq, Repr

namespace Arena

namespace Block

/-- `sizeof(Block)`: two words, and the first byte of the data with its padding. -/
def sizeof : UInt64 := 24

def data (block : Block) : UInt64 := block.address + 16

def totalSize (allocSize : UInt64) : UInt64 := sizeof - 1 + allocSize

end Block

def create (blockSize : UInt64) : Arena := ⟨blockSize, [], 0, 0⟩

def needsBlock (arena : Arena) (alignedSize : UInt64) : Bool :=
  arena.blocks.isEmpty || arena.currentOffset + alignedSize > arena.blockSize

def allocSize (arena : Arena) (minSize : UInt64) : UInt64 :=
  if minSize > arena.blockSize then minSize else arena.blockSize

def allocateNewBlock (arena : Arena) (minSize : UInt64) (malloc : UInt64 → Option UInt64) :
    Option Arena :=
  (malloc (Block.totalSize (arena.allocSize minSize))).map fun address =>
    { arena with blocks := ⟨address, arena.allocSize minSize⟩ :: arena.blocks, currentOffset := 0 }

def ready (arena : Arena) (alignedSize : UInt64) (malloc : UInt64 → Option UInt64) : Option Arena :=
  if arena.needsBlock alignedSize then arena.allocateNewBlock alignedSize malloc else some arena

def allocate (arena : Arena) (size alignment : UInt64) (malloc : UInt64 → Option UInt64) :
    Option UInt64 × Arena :=
  if size = 0 then (none, arena)
  else
    let alignedSize := alignUp size alignment
    match arena.ready alignedSize malloc with
    | none => (none, arena)
    | some ready =>
      (ready.blocks.head?.map fun block => block.data + ready.currentOffset,
        { ready with
          currentOffset := ready.currentOffset + alignedSize
          totalAllocated := ready.totalAllocated + alignedSize })

def reset (arena : Arena) : Arena :=
  { arena with blocks := [], currentOffset := 0, totalAllocated := 0 }

def blockCount (arena : Arena) : Nat := arena.blocks.length

def empty (arena : Arena) : Bool := arena.blocks.isEmpty

/-- A pointer that was returned, for as many bytes as were asked for. -/
structure Allocation where
  pointer : UInt64
  size : UInt64
  alignment : UInt64
  deriving DecidableEq, Repr

def Allocation.region (allocation : Allocation) : Region :=
  ⟨allocation.pointer.toNat, allocation.size.toNat⟩

/-- The arena, and what was allocated since it was last reset. -/
structure Session where
  arena : Arena
  live : List Allocation
  deriving DecidableEq, Repr

def Session.start (blockSize : UInt64) : Session := ⟨create blockSize, []⟩

/-- A call, with what `malloc` answers while it runs. -/
inductive Call where
  | allocate (size alignment : UInt64) (malloc : UInt64 → Option UInt64)
  | reset

def Session.call (session : Session) : Call → Option Session
  | .allocate size alignment malloc =>
    let (pointer, arena) := session.arena.allocate size alignment malloc
    some ⟨arena, (pointer.map fun pointer => ⟨pointer, size, alignment⟩).toList ++ session.live⟩
  | .reset => some ⟨session.arena.reset, []⟩

namespace Block

def region (block : Block) : Region := ⟨block.address.toNat, (totalSize block.size).toNat⟩

def dataRegion (block : Block) : Region := ⟨block.address.toNat + 16, block.size.toNat⟩

end Block

/-- What the pointers are for: each is aligned as was asked, its bytes are in the data of
a block, and no two overlap. -/
structure Session.Sound (session : Session) : Prop where
  aligned : ∀ allocation ∈ session.live, allocation.alignment.toNat ∣ allocation.pointer.toNat
  inside : ∀ allocation ∈ session.live, ∃ block ∈ session.arena.blocks,
    allocation.region.Within block.dataRegion ∧ block.dataRegion.Within block.region
  apart : session.live.Pairwise fun one other => one.region.Apart other.region

/-- What is promised of a call: a power of two for the alignment, and of `malloc` an
address that is aligned for anything, with as many bytes behind it as were asked for, none
of them in a block that is in use. -/
def Session.Promised (session : Session) : Call → Prop
  | .allocate size alignment malloc =>
    size ≠ 0 ∧ (∃ k, alignment.toNat = 2 ^ k ∧ alignment ≤ maxAlignment) ∧
      ∀ total address, malloc total = some address → maxAlignment.toNat ∣ address.toNat ∧
        address.toNat + total.toNat ≤ 2 ^ 64 ∧
        ∀ block ∈ session.arena.blocks, Region.Apart ⟨address.toNat, total.toNat⟩ block.region
  | .reset => True

/-- What the code relies on and does not check: sums do not wrap, and where no new block is opened
the offset happens to be aligned. -/
def Session.Spaced (session : Session) : Call → Prop
  | .allocate size alignment malloc =>
    size.toNat + alignment.toNat ≤ 2 ^ 64 ∧
      if session.arena.needsBlock (alignUp size alignment) then
        ∀ address, malloc (Block.totalSize (session.arena.allocSize (alignUp size alignment))) =
          some address →
          23 + (session.arena.allocSize (alignUp size alignment)).toNat < 2 ^ 64
      else
        session.arena.currentOffset.toNat + (alignUp size alignment).toNat < 2 ^ 64 ∧
          alignment.toNat ∣ session.arena.currentOffset.toNat
  | .reset => True

theorem toNat_alignUp {value alignment : UInt64} {k : Nat} (power : alignment.toNat = 2 ^ k)
    (fits : value.toNat + alignment.toNat ≤ 2 ^ 64) :
    (alignUp value alignment).toNat = 2 ^ k * ((value.toNat + (2 ^ k - 1)) / 2 ^ k) := by
  have positive := Nat.two_pow_pos k
  have small : k ≤ 64 := by
    by_contra large
    have := Nat.pow_lt_pow_right (show 1 < 2 by decide) (Nat.lt_of_not_le large)
    have := alignment.toNat_lt
    omega
  have mask : (alignment - 1).toNat = 2 ^ k - 1 := by
    rw [UInt64.toNat_sub_of_le, power]
    · rfl
    · rw [UInt64.le_iff_toNat_le, power]
      exact positive
  rw [alignUp, UInt64.toNat_and, UInt64.toNat_not, UInt64.toNat_add, mask,
    Nat.mod_eq_of_lt (by omega)]
  have high : UInt64.size - 1 - (2 ^ k - 1) = 2 ^ 64 - 2 ^ k := by
    rw [UInt64.size]
    omega
  rw [high, and_high_mask small (by omega)]

theorem alignUp_bounds {value alignment : UInt64} {k : Nat} (power : alignment.toNat = 2 ^ k)
    (fits : value.toNat + alignment.toNat ≤ 2 ^ 64) :
    value ≤ alignUp value alignment ∧ alignment.toNat ∣ (alignUp value alignment).toNat := by
  have positive := Nat.two_pow_pos k
  have rounded := Nat.div_add_mod (value.toNat + (2 ^ k - 1)) (2 ^ k)
  have rest := Nat.mod_lt (value.toNat + (2 ^ k - 1)) positive
  rw [UInt64.le_iff_toNat_le, toNat_alignUp power fits, power]
  exact ⟨by omega, Nat.dvd_mul_right _ _⟩

/-- A block whose size did not wrap, where `malloc` can have put it. -/
structure Block.Placed (block : Block) : Prop where
  aligned : maxAlignment.toNat ∣ block.address.toNat
  total : (totalSize block.size).toNat = 23 + block.size.toNat
  fits : block.address.toNat + (23 + block.size.toNat) ≤ 2 ^ 64

theorem Block.Placed.data_within {block : Block} (placed : block.Placed) :
    block.dataRegion.Within block.region := by
  unfold Region.Within Region.stop Block.dataRegion Block.region
  rw [placed.total]
  dsimp only
  omega

/-- The allocations in the current block end where the next one begins. -/
structure Session.Below (session : Session) (head : Block) (rest : List Block) : Prop where
  room : session.arena.currentOffset ≤ head.size
  enough : session.arena.blockSize ≤ head.size
  below : ∀ allocation ∈ session.live,
    (∃ block ∈ rest, allocation.region.Within block.dataRegion) ∨
      (head.dataRegion.start ≤ allocation.region.start ∧
        allocation.region.stop ≤ head.dataRegion.start + session.arena.currentOffset.toNat)

structure Session.Kept (session : Session) : Prop where
  aligned : ∀ allocation ∈ session.live, allocation.alignment.toNat ∣ allocation.pointer.toNat
  apart : session.live.Pairwise fun one other => one.region.Apart other.region
  placed : ∀ block ∈ session.arena.blocks, block.Placed
  blocksApart : session.arena.blocks.Pairwise fun one other => one.region.Apart other.region
  current : ∀ head rest, session.arena.blocks = head :: rest → session.Below head rest
  nothing : session.arena.blocks = [] → session.live = []

theorem Session.kept_start (blockSize : UInt64) : (Session.start blockSize).Kept where
  aligned _ listed := absurd listed List.not_mem_nil
  apart := List.Pairwise.nil
  placed _ listed := absurd listed List.not_mem_nil
  blocksApart := List.Pairwise.nil
  current _ _ none := absurd none (List.cons_ne_nil _ _).symm
  nothing _ := rfl

theorem Session.Below.within {session : Session} {head : Block} {rest : List Block}
    (below : session.Below head rest)
    {allocation : Allocation} (listed : allocation ∈ session.live) :
    ∃ block ∈ head :: rest, allocation.region.Within block.dataRegion := by
  rcases below.below allocation listed with ⟨block, there, within⟩ | ⟨starts, ends⟩
  · exact ⟨block, List.mem_cons_of_mem head there, within⟩
  · refine ⟨head, List.mem_cons_self, starts, Nat.le_trans ends ?_⟩
    exact Nat.add_le_add_left (UInt64.le_iff_toNat_le.mp below.room) _

theorem Session.Kept.within {session : Session} (kept : session.Kept) {allocation : Allocation}
    (listed : allocation ∈ session.live) :
    ∃ block ∈ session.arena.blocks, allocation.region.Within block.dataRegion := by
  cases blocks : session.arena.blocks with
  | nil =>
    rw [kept.nothing blocks] at listed
    cases listed
  | cons head rest => exact (kept.current head rest blocks).within listed

theorem Session.Kept.sound {session : Session} (kept : session.Kept) : session.Sound where
  aligned := kept.aligned
  apart := kept.apart
  inside allocation listed := by
    obtain ⟨block, there, within⟩ := kept.within listed
    exact ⟨block, there, within, (kept.placed block there).data_within⟩

theorem Session.Kept.open {session : Session} (kept : session.Kept) {address size : UInt64}
    (placed : Block.Placed ⟨address, size⟩) (enough : session.arena.blockSize ≤ size)
    (apart : ∀ block ∈ session.arena.blocks,
      Region.Apart (Block.region ⟨address, size⟩) block.region) :
    Session.Kept
      ⟨{ session.arena with blocks := ⟨address, size⟩ :: session.arena.blocks, currentOffset := 0 },
        session.live⟩ where
  aligned := kept.aligned
  apart := kept.apart
  placed := List.forall_mem_cons.mpr ⟨placed, kept.placed⟩
  blocksApart := List.pairwise_cons.mpr ⟨apart, kept.blocksApart⟩
  current head rest same := by
    obtain ⟨rfl, rfl⟩ := List.cons.inj same
    exact ⟨UInt64.le_iff_toNat_le.mpr (Nat.zero_le _), enough, fun _ listed =>
      .inl (kept.within listed)⟩
  nothing none := absurd none (List.cons_ne_nil _ _)

theorem Session.Kept.bump {session : Session} (kept : session.Kept)
    {head : Block} {rest : List Block}
    (blocks : session.arena.blocks = head :: rest) {size alignment alignedSize : UInt64}
    (rounded : size ≤ alignedSize) (power : alignment.toNat ∣ maxAlignment.toNat)
    (spaced : alignment.toNat ∣ session.arena.currentOffset.toNat)
    (fits : session.arena.currentOffset.toNat + alignedSize.toNat ≤ head.size.toNat) :
    Session.Kept
      ⟨{ session.arena with
          currentOffset := session.arena.currentOffset + alignedSize
          totalAllocated := session.arena.totalAllocated + alignedSize },
        ⟨head.data + session.arena.currentOffset, size, alignment⟩ :: session.live⟩ := by
  have below := kept.current head rest blocks
  have listed : head ∈ session.arena.blocks := by rw [blocks]; exact List.mem_cons_self
  have placed := kept.placed head listed
  have room := placed.fits
  have data : head.data.toNat = head.address.toNat + 16 := by
    rw [Block.data, UInt64.toNat_add]
    change (head.address.toNat + 16) % 2 ^ 64 = _
    exact Nat.mod_eq_of_lt (by omega)
  have pointer : (head.data + session.arena.currentOffset).toNat =
      head.address.toNat + 16 + session.arena.currentOffset.toNat := by
    rw [UInt64.toNat_add, data, Nat.mod_eq_of_lt (by omega)]
  have offset : (session.arena.currentOffset + alignedSize).toNat =
      session.arena.currentOffset.toNat + alignedSize.toNat := by
    rw [UInt64.toNat_add, Nat.mod_eq_of_lt (by omega)]
  have roundedNat := UInt64.le_iff_toNat_le.mp rounded
  have chain := kept.blocksApart
  rw [blocks, List.pairwise_cons] at chain
  have mine : Region.Within ⟨(head.data + session.arena.currentOffset).toNat,
      size.toNat⟩ head.dataRegion := by
    unfold Region.Within Region.stop Block.dataRegion
    rw [pointer]
    dsimp only
    omega
  refine ⟨List.forall_mem_cons.mpr ⟨?_, kept.aligned⟩,
    List.pairwise_cons.mpr ⟨?_, kept.apart⟩, kept.placed,
    kept.blocksApart, ?_, fun none => absurd (blocks.symm.trans none) (List.cons_ne_nil _ _)⟩
  · change alignment.toNat ∣ (head.data + session.arena.currentOffset).toNat
    rw [pointer]
    have start : alignment.toNat ∣ head.address.toNat := Nat.dvd_trans power placed.aligned
    exact (Nat.dvd_add (Nat.dvd_add start power) spaced)
  · intro other there
    rcases below.below other there with ⟨block, earlier, within⟩ | ⟨_, ends⟩
    · have earlierPlaced :=
        kept.placed block (by rw [blocks]; exact List.mem_cons_of_mem head earlier)
      exact (chain.1 block earlier).within (mine.trans placed.data_within)
        (within.trans earlierPlaced.data_within)
    · refine .inr (Nat.le_trans ends ?_)
      change head.address.toNat + 16 + session.arena.currentOffset.toNat ≤
        (head.data + session.arena.currentOffset).toNat
      rw [pointer]
  · intro first others same
    obtain ⟨rfl, rfl⟩ := List.cons.inj (blocks.symm.trans same)
    refine ⟨?_, below.enough, List.forall_mem_cons.mpr ⟨.inr ⟨mine.1, ?_⟩, ?_⟩⟩
    · change session.arena.currentOffset + alignedSize ≤ head.size
      rw [UInt64.le_iff_toNat_le, offset]
      exact fits
    · change (head.data + session.arena.currentOffset).toNat + size.toNat ≤
        head.address.toNat + 16 + (session.arena.currentOffset + alignedSize).toNat
      rw [pointer, offset]
      omega
    · intro other there
      rcases below.below other there with earlier | ⟨starts, ends⟩
      · exact .inl earlier
      · refine .inr ⟨starts, Nat.le_trans ends ?_⟩
        change head.address.toNat + 16 + session.arena.currentOffset.toNat ≤
          head.address.toNat + 16 + (session.arena.currentOffset + alignedSize).toNat
        rw [offset]
        omega

theorem le_allocSize (arena : Arena) (minSize : UInt64) :
    minSize ≤ arena.allocSize minSize ∧ arena.blockSize ≤ arena.allocSize minSize := by
  unfold allocSize
  simp only [UInt64.le_iff_toNat_le]
  by_cases large : minSize > arena.blockSize
  · rw [if_pos large]
    exact ⟨Nat.le_refl _, Nat.le_of_lt (UInt64.lt_iff_toNat_lt.mp large)⟩
  · rw [if_neg large]
    exact ⟨UInt64.le_iff_toNat_le.mp (UInt64.not_lt.mp large), Nat.le_refl _⟩

theorem toNat_totalSize {size : UInt64} (fits : 23 + size.toNat < 2 ^ 64) :
    (Block.totalSize size).toNat = 23 + size.toNat := by
  rw [Block.totalSize, UInt64.toNat_add]
  exact Nat.mod_eq_of_lt fits

theorem Session.call_none {session : Session} {size alignment : UInt64}
    {malloc : UInt64 → Option UInt64} (nonzero : size ≠ 0)
    (failed : session.arena.ready (alignUp size alignment) malloc = none) :
    session.call (.allocate size alignment malloc) = some session := by
  simp only [Session.call, Arena.allocate, if_neg nonzero, failed]
  rfl

theorem Session.call_some {session : Session} {size alignment : UInt64}
    {malloc : UInt64 → Option UInt64} (nonzero : size ≠ 0)
    {arena : Arena} (had : session.arena.ready (alignUp size alignment) malloc = some arena)
    {head : Block} {rest : List Block}
    (blocks : arena.blocks = head :: rest) :
    session.call (.allocate size alignment malloc) = some
      ⟨{ arena with
          currentOffset := arena.currentOffset + alignUp size alignment
          totalAllocated := arena.totalAllocated + alignUp size alignment },
        ⟨head.data + arena.currentOffset, size, alignment⟩ :: session.live⟩ := by
  simp only [Session.call, Arena.allocate, if_neg nonzero, had, blocks]
  rfl

theorem Session.Kept.call {session next : Session} {call : Call} (kept : session.Kept)
    (condition : session.Promised call ∧ session.Spaced call)
    (called : session.call call = some next) : next.Kept := by
  obtain ⟨promised, spaced⟩ := condition
  cases call with
  | reset =>
    cases called
    exact ⟨fun _ listed => absurd listed List.not_mem_nil, List.Pairwise.nil, fun _ listed =>
      absurd listed List.not_mem_nil,
      List.Pairwise.nil, fun _ _ none => absurd none (List.cons_ne_nil _ _).symm, fun _ => rfl⟩
  | allocate size alignment malloc =>
    obtain ⟨nonzero, ⟨k, power, bounded⟩, answers⟩ := promised
    obtain ⟨rounds, place⟩ := spaced
    have rounded := (alignUp_bounds power rounds).1
    have divides : alignment.toNat ∣ maxAlignment.toNat := by
      have most : 2 ^ k ≤ 2 ^ 4 := power ▸ UInt64.le_iff_toNat_le.mp bounded
      rw [power]
      exact Nat.pow_dvd_pow 2 ((Nat.pow_le_pow_iff_right (by decide)).mp most)
    by_cases leaves : session.arena.needsBlock (alignUp size alignment) = true
    · -- A new block: it begins at the offset zero, with enough room.
      rw [if_pos leaves] at place
      have same : session.arena.ready (alignUp size alignment) malloc =
          session.arena.allocateNewBlock (alignUp size alignment) malloc := if_pos leaves
      cases answer : malloc
        (Block.totalSize (session.arena.allocSize (alignUp size alignment))) with
      | none =>
        rw [Session.call_none nonzero
          (same.trans (by rw [allocateNewBlock, answer]; rfl))] at called
        cases called
        exact kept
      | some address =>
        obtain ⟨aligned, fits, apart⟩ := answers _ _ answer
        have total := toNat_totalSize (place address answer)
        have most := le_allocSize session.arena (alignUp size alignment)
        have opened := kept.open ⟨aligned, total, total ▸ fits⟩ most.2 apart
        rw [Session.call_some nonzero
          (same.trans (by rw [allocateNewBlock, answer]; rfl)) rfl] at called
        cases called
        refine opened.bump rfl rounded divides (Nat.dvd_zero _) ?_
        change 0 + (alignUp size alignment).toNat ≤
          (session.arena.allocSize (alignUp size alignment)).toNat
        rw [Nat.zero_add]
        exact UInt64.le_iff_toNat_le.mp most.1
    · -- The current block: the sum of offset and size does not wrap, and stays within the block.
      rw [if_neg leaves] at place
      have same : session.arena.ready (alignUp size alignment) malloc = some session.arena :=
        if_neg leaves
      unfold needsBlock at leaves
      rw [Bool.or_eq_true, decide_eq_true_iff, not_or] at leaves
      cases blocks : session.arena.blocks with
      | nil =>
        rw [blocks] at leaves
        exact absurd rfl leaves.1
      | cons head rest =>
        have below := kept.current head rest blocks
        have room := UInt64.le_iff_toNat_le.mp (UInt64.not_lt.mp leaves.2)
        rw [UInt64.toNat_add, Nat.mod_eq_of_lt place.1] at room
        rw [Session.call_some nonzero same blocks] at called
        cases called
        exact kept.bump blocks rounded divides place.2
          (Nat.le_trans room (UInt64.le_iff_toNat_le.mp below.enough))

/-- In every run whose calls are spaced, everything returned is aligned, inside of a
block and apart from the rest. -/
theorem Session.run_sound (blockSize : UInt64) {calls : List Call} {final : Session}
    (meets : Meets Session.call (fun session call => session.Promised call ∧
      session.Spaced call) calls (.start blockSize))
    (done : runs Session.call calls (.start blockSize) = some final) : final.Sound :=
  (runs_meets Session.Kept.call (Session.kept_start blockSize) meets done).sound

def once (total address : UInt64) : UInt64 → Option UInt64 :=
  fun asked => if asked = total then some address else none

theorem promised_start {blockSize size alignment total address : UInt64}
    (nonzero : size ≠ 0) {k : Nat}
    (power : alignment.toNat = 2 ^ k) (bounded : alignment ≤ maxAlignment)
    (aligned : maxAlignment.toNat ∣ address.toNat)
    (fits : address.toNat + total.toNat ≤ 2 ^ 64) :
    (Session.start blockSize).Promised (.allocate size alignment (once total address)) := by
  refine ⟨nonzero, ⟨k, power, bounded⟩, fun asked answered answer => ?_⟩
  unfold once at answer
  by_cases same : asked = total
  · rw [if_pos same] at answer
    cases answer
    exact ⟨aligned, same ▸ fits, fun _ listed => absurd listed List.not_mem_nil⟩
  · rw [if_neg same] at answer
    cases answer

theorem promised_refused {session : Session} {size alignment : UInt64}
    (nonzero : size ≠ 0) {k : Nat}
    (power : alignment.toNat = 2 ^ k) (bounded : alignment ≤ maxAlignment) :
    session.Promised (.allocate size alignment fun _ => none) :=
  ⟨nonzero, ⟨k, power, bounded⟩, fun _ _ answer => absurd answer (Option.some_ne_none _).symm⟩

theorem Session.run_sound_of_two :
    Session.Sound ⟨⟨64, [⟨4096, 64⟩], 24, 24⟩, [⟨4120, 16, 4⟩, ⟨4112, 8, 8⟩]⟩ := by
  refine @Session.run_sound 64 [.allocate 8 8 (once 87 4096),
    .allocate 16 4 fun _ => none] _ ?_ (by rfl)
  have stepped : (Session.start 64).call (.allocate 8 8 (once 87 4096)) =
      some ⟨⟨64, [⟨4096, 64⟩], 8, 8⟩, [⟨4112, 8, 8⟩]⟩ := by rfl
  refine (meets_cons_some stepped).mpr ⟨⟨?_, by decide, fun _ _ => by decide⟩,
    ⟨?_, by decide, by decide, by decide⟩,
    fun _ _ => trivial⟩
  · exact promised_start (by decide) (show (8 : UInt64).toNat = 2 ^ 3 by decide)
      (by decide) (by decide) (by decide)
  · exact promised_refused (by decide) (show (4 : UInt64).toNat = 2 ^ 2 by decide) (by decide)

theorem Session.not_sound_behind_byte :
    ∃ calls final, Meets Session.call Session.Promised calls (.start 64) ∧
      runs Session.call calls (.start 64) = some final ∧
      ¬ final.Sound := by
  refine ⟨[.allocate 1 1 (once 87 4096), .allocate 8 8 fun _ => none],
    ⟨⟨64, [⟨4096, 64⟩], 9, 9⟩, [⟨4113, 8, 8⟩, ⟨4112, 1, 1⟩]⟩, ?_, by rfl, ?_⟩
  · have stepped : (Session.start 64).call (.allocate 1 1 (once 87 4096)) =
        some ⟨⟨64, [⟨4096, 64⟩], 1, 1⟩, [⟨4112, 1, 1⟩]⟩ := by rfl
    refine (meets_cons_some stepped).mpr ⟨?_, ?_, fun _ _ => trivial⟩
    · exact promised_start (by decide) (show (1 : UInt64).toNat = 2 ^ 0 by decide)
        (by decide) (by decide) (by decide)
    · exact promised_refused (by decide) (show (8 : UInt64).toNat = 2 ^ 3 by decide) (by decide)
  · intro sound
    exact absurd (sound.aligned ⟨4113, 8, 8⟩ List.mem_cons_self) (by decide)

end Arena

end VectorTick
