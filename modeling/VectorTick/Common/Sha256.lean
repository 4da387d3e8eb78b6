import Mathlib.Data.Vector.Basic
import VectorTick.Foundation.BlockStream
import VectorTick.Foundation.Layout

/-! The streaming hasher: a buffer of one block, the state, and the number of bytes so far.

What was hashed shows in the hasher as the state behind the whole blocks and, in
the buffer, what is left over. -/

set_option autoImplicit false

namespace VectorTick

open Foundation

/-- The table of round constants as the source has it. -/
def K : List UInt32 := [
  0x428a2f98, 0x71374491, 0xb5c0fbcf, 0xe9b5dba5,
  0x3956c25b, 0x59f111f1, 0x923f82a4, 0xab1c5ed5,
  0xd807aa98, 0x12835b01, 0x243185be, 0x550c7dc3,
  0x72be5d74, 0x80deb1fe, 0x9bdc06a7, 0xc19bf174,
  0xe49b69c1, 0xefbe4786, 0x0fc19dc6, 0x240ca1cc,
  0x2de92c6f, 0x4a7484aa, 0x5cb0a9dc, 0x76f988da,
  0x983e5152, 0xa831c66d, 0xb00327c8, 0xbf597fc7,
  0xc6e00bf3, 0xd5a79147, 0x06ca6351, 0x14292967,
  0x27b70a85, 0x2e1b2138, 0x4d2c6dfc, 0x53380d13,
  0x650a7354, 0x766a0abb, 0x81c2c92e, 0x92722c85,
  0xa2bfe8a1, 0xa81a664b, 0xc24b8b70, 0xc76c51a3,
  0xd192e819, 0xd6990624, 0xf40e3585, 0x106aa070,
  0x19a4c116, 0x1e376c08, 0x2748774c, 0x34b0bcb5,
  0x391c0cb3, 0x4ed8aa4a, 0x5b9cca4f, 0x682e6ff3,
  0x74f1c51a, 0x7aa83914, 0x8e9e8e9e, 0x64d98b3d,
  0x72c7d4d5, 0x9ae98b91, 0xf0d1e9c4, 0xd5a79147]

def rotr (x n : UInt32) : UInt32 := (x >>> n) ||| (x <<< (32 - n))

def choose (e f g : UInt32) : UInt32 := (e &&& f) ^^^ (~~~e &&& g)

def majority (a b c : UInt32) : UInt32 := (a &&& b) ^^^ (a &&& c) ^^^ (b &&& c)

def sigma0 (x : UInt32) : UInt32 := rotr x 2 ^^^ rotr x 13 ^^^ rotr x 22

def sigma1 (x : UInt32) : UInt32 := rotr x 6 ^^^ rotr x 11 ^^^ rotr x 25

def gamma0 (x : UInt32) : UInt32 := rotr x 7 ^^^ rotr x 18 ^^^ (x >>> 3)

def gamma1 (x : UInt32) : UInt32 := rotr x 17 ^^^ rotr x 19 ^^^ (x >>> 10)

/-- The words `state_[0]` to `state_[7]`, under the names of the working
variables that are loaded from them. -/
@[ext] structure HashWords where
  a : UInt32
  b : UInt32
  c : UInt32
  d : UInt32
  e : UInt32
  f : UInt32
  g : UInt32
  h : UInt32
  deriving DecidableEq, Repr

namespace HashWords

def initial : HashWords :=
  ⟨0x6a09e667, 0xbb67ae85, 0x3c6ef372, 0xa54ff53a, 0x510e527f, 0x9b05688c, 0x1f83d9ab, 0x5be0cd19⟩

def round (words : HashWords) (constant word : UInt32) : HashWords :=
  let t1 := words.h + sigma1 words.e + choose words.e words.f words.g + constant + word
  let t2 := sigma0 words.a + majority words.a words.b words.c
  ⟨t1 + t2, words.a, words.b, words.c, words.d + t1, words.e, words.f, words.g⟩

/-- `state_[i] += ...` -/
def add (first second : HashWords) : HashWords :=
  ⟨first.a + second.a, first.b + second.b, first.c + second.c, first.d + second.d,
    first.e + second.e, first.f + second.f, first.g + second.g, first.h + second.h⟩

def toList (words : HashWords) : List UInt32 :=
  [words.a, words.b, words.c, words.d, words.e, words.f, words.g, words.h]

/-- The bytes of the result, each word with its highest byte first. -/
def digest (words : HashWords) : Bytes :=
  words.toList.flatMap fun word : UInt32 =>
    [(word >>> 24).toUInt8, (word >>> 16).toUInt8, (word >>> 8).toUInt8, word.toUInt8]

end HashWords

namespace Sha256

/-- `w[i]` for the words of the block. -/
def blockWord (block : Bytes) (i : Nat) : UInt32 :=
  ((block.getD (i * 4) 0).toUInt32 <<< 24) ||| ((block.getD (i * 4 + 1) 0).toUInt32 <<< 16) |||
    ((block.getD (i * 4 + 2) 0).toUInt32 <<< 8) ||| (block.getD (i * 4 + 3) 0).toUInt32

def extendSchedule (w : List UInt32) (i : Nat) : List UInt32 :=
  w ++ [gamma1 (w.getD (i - 2) 0) + w.getD (i - 7) 0 + gamma0
    (w.getD (i - 15) 0) + w.getD (i - 16) 0]

def schedule (block : Bytes) : List UInt32 :=
  (List.range' 16 48).foldl extendSchedule ((List.range 16).map (blockWord block))

def processBlock (state : HashWords) (block : Bytes) : HashWords :=
  let w := schedule block
  state.add ((List.range 64).foldl (fun words i => words.round (K.getD i 0) (w.getD i 0)) state)

end Sha256

/-- A hasher; nothing is promised of the buffer beyond its first `bufferLen` bytes. -/
structure Sha256 where
  buffer : Vector UInt8 64
  bufferLen : Nat
  totalLen : UInt64
  state : HashWords
  finalized : Bool

namespace Sha256

/-- A new hasher. The source leaves the buffer as it finds it. -/
def fresh (buffer : Vector UInt8 64) : Sha256 := ⟨buffer, 0, 0, .initial, false⟩

def reset (hasher : Sha256) : Sha256 :=
  { hasher with bufferLen := 0, totalLen := 0, finalized := false, state := .initial }

/-- `buffer_[buffer_len_++] = byte` -/
def push (hasher : Sha256) (byte : UInt8) : Sha256 :=
  { hasher with
    buffer := hasher.buffer.setIfInBounds hasher.bufferLen byte, bufferLen := hasher.bufferLen + 1 }

def fill (hasher : Sha256) : Bytes → Sha256 × Bytes
  | [] => (hasher, [])
  | byte :: data =>
    if hasher.bufferLen < 64 then (hasher.push byte).fill data else (hasher, byte :: data)

/-- `while (buffer_len_ < 56)` -/
def padZeros (hasher : Sha256) : Sha256 := if hasher.bufferLen <
    56 then (hasher.push 0).padZeros else hasher
termination_by 56 - hasher.bufferLen
decreasing_by simp only [push]; omega

def putLength (hasher : Sha256) (bitLen : UInt64) : Sha256 :=
  { hasher with
    buffer := ((((((((hasher.buffer.setIfInBounds 56 (bitLen >>> 56).toUInt8).setIfInBounds
    57 (bitLen >>> 48).toUInt8).setIfInBounds 58 (bitLen >>> 40).toUInt8).setIfInBounds
    59 (bitLen >>> 32).toUInt8).setIfInBounds 60 (bitLen >>> 24).toUInt8).setIfInBounds
    61 (bitLen >>> 16).toUInt8).setIfInBounds 62
      (bitLen >>> 8).toUInt8).setIfInBounds 63 bitLen.toUInt8) }

-- The functions around `process_block` take it as an argument: what it computes is nothing to them.

section

variable (processBlock : HashWords → Bytes → HashWords)

def processBuffer (hasher : Sha256) : Sha256 :=
  { hasher with state := processBlock hasher.state hasher.buffer.toList }

def flush (hasher : Sha256) : Sha256 :=
  if hasher.bufferLen = 64 then
    { hasher.processBuffer processBlock with bufferLen := 0 } else hasher

def direct (hasher : Sha256) (data : Bytes) : Sha256 × Bytes :=
  if 64 ≤ data.length then
    direct { hasher with state := processBlock hasher.state (data.take 64) } (data.drop 64)
  else (hasher, data)
termination_by data.length
decreasing_by rw [List.length_drop]; omega

/-- The loops of `update`: fill the buffer, flush it, take whole blocks, keep the rest. -/
def absorb (hasher : Sha256) (data : Bytes) : Sha256 :=
  let (hasher, data) := hasher.fill data
  let hasher := hasher.flush processBlock
  let (hasher, data) := hasher.direct processBlock data
  data.foldl push hasher

def updateWith (hasher : Sha256) (data : Bytes) : Sha256 :=
  let hasher := if hasher.finalized then hasher.reset else hasher
  absorb processBlock { hasher with totalLen := hasher.totalLen + UInt64.ofNat data.length } data

/-- The length overwrites the end of the block at hand even where the
padding goes on in a second one. -/
def finalizeWith (hasher : Sha256) : Bytes × Sha256 :=
  if hasher.finalized then (hasher.state.digest, hasher)
  else
    let bitLen := hasher.totalLen * 8
    let hasher := ((hasher.push 0x80).padZeros.putLength bitLen).processBuffer processBlock
    let hasher :=
      if 56 < hasher.bufferLen then
        ({ hasher with bufferLen := 0 }.padZeros.putLength bitLen).processBuffer processBlock
      else hasher
    let hasher := { hasher with finalized := true }
    (hasher.state.digest, hasher)

end

def update (hasher : Sha256) (data : Bytes) : Sha256 := hasher.updateWith processBlock data

def finalize (hasher : Sha256) : Bytes × Sha256 := hasher.finalizeWith processBlock

def compute
    (buffer : Vector UInt8 64) (data : Bytes) : Bytes := ((fresh buffer).update data).finalize.1

/-- The bytes in use at the front of the buffer. -/
structure Holds (hasher : Sha256) (bytes : Bytes) : Prop where
  bufferLen : hasher.bufferLen = bytes.length
  room : bytes.length ≤ 64
  front : hasher.buffer.toList.take bytes.length = bytes

/-- What `push` leaves alone. -/
structure Kept (hasher after : Sha256) : Prop where
  state : after.state = hasher.state
  totalLen : after.totalLen = hasher.totalLen
  finalized : after.finalized = hasher.finalized

variable {hasher : Sha256} {bytes : Bytes} {processBlock : HashWords → Bytes → HashWords}

theorem Holds.push (holds : hasher.Holds bytes) (room : bytes.length < 64) (byte : UInt8) :
    (hasher.push byte).Holds (bytes ++ [byte]) where
  bufferLen := by rw [Sha256.push, holds.bufferLen, List.length_append, List.length_singleton]
  room := by rw [List.length_append, List.length_singleton]; omega
  front := by
    have inside : bytes.length < hasher.buffer.toList.length := by rwa [Vector.length_toList]
    rw [Sha256.push, Vector.toList_setIfInBounds, holds.bufferLen, List.length_append,
      List.length_singleton, List.take_succ_eq_append_getElem (by rwa [List.length_set]),
      List.getElem_set_self, List.take_set_of_le (Nat.le_refl _), holds.front]

theorem Holds.foldl_push (holds : hasher.Holds bytes) (data : Bytes)
    (room : bytes.length + data.length ≤ 64) :
    (data.foldl Sha256.push hasher).Holds (bytes ++ data) := by
  induction data generalizing hasher bytes with
  | nil => rwa [List.append_nil]
  | cons byte rest ih =>
    rw [List.length_cons] at room
    have next :=
      ih (holds.push (by omega) byte) (by rw [List.length_append, List.length_singleton]; omega)
    rwa [List.append_assoc] at next

theorem kept_foldl_push (hasher : Sha256) (data : Bytes) :
    hasher.Kept (data.foldl push hasher) := by
  induction data generalizing hasher with
  | nil => exact ⟨rfl, rfl, rfl⟩
  | cons byte rest ih =>
    have next := ih (hasher.push byte)
    exact ⟨next.state, next.totalLen, next.finalized⟩

theorem Holds.toList (holds : hasher.Holds bytes) (full : bytes.length = 64) :
    hasher.buffer.toList = bytes := by
  have front := holds.front
  rwa [full, List.take_of_length_le (Nat.le_of_eq hasher.buffer.length_toList)] at front

theorem fill_eq (hasher : Sha256) (data : Bytes) :
    hasher.fill data = ((data.take (64 - hasher.bufferLen)).foldl push
      hasher, data.drop (64 - hasher.bufferLen)) := by
  induction data generalizing hasher with
  | nil => rw [List.take_nil, List.drop_nil]; rfl
  | cons byte rest ih =>
    rw [fill]
    by_cases room : hasher.bufferLen < 64
    · have more : 64 - hasher.bufferLen = (64 - (hasher.push byte).bufferLen) + 1 := by
        simp only [push]
        omega
      rw [if_pos room, ih, more, List.take_succ_cons, List.drop_succ_cons, List.foldl_cons]
    · rw [if_neg room, show 64 - hasher.bufferLen = 0 by omega]
      rfl

theorem direct_eq (hasher : Sha256) (data : Bytes) :
    hasher.direct processBlock data =
      ({ hasher with state := (wholeBlocks 64 data).foldl processBlock hasher.state },
        leftover 64 data) := by
  induction hasher, data using direct.induct processBlock with
  | case1 hasher data whole ih =>
    rw [direct, if_pos whole, ih, wholeBlocks.eq_1 64 data, if_pos ⟨by decide, whole⟩,
      leftover.eq_1 64 data, if_pos ⟨by decide, whole⟩]
    rfl
  | case2 hasher data short =>
    rw [direct, if_neg short, wholeBlocks_short (Nat.lt_of_not_le short),
      leftover_short (Nat.lt_of_not_le short)]
    rfl

/-- What the hasher has taken in since it was new. -/
structure Consumed (processBlock : HashWords → Bytes → HashWords) (hasher : Sha256)
    (message : Bytes) : Prop where
  unfinished : hasher.finalized = false
  totalLen : hasher.totalLen = UInt64.ofNat message.length
  state : hasher.state = (wholeBlocks 64 message).foldl processBlock .initial
  holds : hasher.Holds (leftover 64 message)

theorem consumed_of_empty (unfinished : hasher.finalized = false) (totalLen : hasher.totalLen = 0)
    (state : hasher.state = .initial) (bufferLen : hasher.bufferLen = 0) :
    hasher.Consumed processBlock [] where
  unfinished := unfinished
  totalLen := totalLen
  state := by rw [state, wholeBlocks_short (by decide)]; rfl
  holds := by
    rw [leftover_short (by decide)]
    exact ⟨bufferLen, by decide, rfl⟩

theorem consumed_fresh (buffer : Vector UInt8 64) : (fresh buffer).Consumed processBlock [] :=
  consumed_of_empty rfl rfl rfl rfl

theorem consumed_reset (hasher : Sha256) : hasher.reset.Consumed processBlock [] :=
  consumed_of_empty rfl rfl rfl rfl

theorem kept_flush (hasher : Sha256) : (hasher.flush processBlock).totalLen = hasher.totalLen ∧
    (hasher.flush processBlock).finalized = hasher.finalized := by
  unfold flush
  by_cases full : hasher.bufferLen = 64
  · rw [if_pos full]
    exact ⟨rfl, rfl⟩
  · rw [if_neg full]
    exact ⟨rfl, rfl⟩

theorem kept_absorb (hasher : Sha256) (data : Bytes) :
    (hasher.absorb processBlock data).totalLen = hasher.totalLen ∧
      (hasher.absorb processBlock data).finalized = hasher.finalized := by
  have first := kept_foldl_push hasher (data.take (64 - hasher.bufferLen))
  unfold absorb
  simp only [fill_eq, direct_eq]
  generalize (data.take (64 - hasher.bufferLen)).foldl push hasher = filled at first ⊢
  obtain ⟨totalLen, finalized⟩ := @kept_flush processBlock filled
  constructor
  · rw [(kept_foldl_push _ _).totalLen]
    exact totalLen.trans first.totalLen
  · rw [(kept_foldl_push _ _).finalized]
    exact finalized.trans first.finalized

theorem Holds.absorb (holds : hasher.Holds bytes) (short : bytes.length < 64) (data : Bytes) :
    (hasher.absorb processBlock data).state =
      (wholeBlocks 64 (bytes ++ data)).foldl processBlock hasher.state ∧
      (hasher.absorb processBlock data).Holds (leftover 64 (bytes ++ data)) := by
  unfold Sha256.absorb
  simp only [fill_eq, direct_eq, holds.bufferLen]
  have kept := kept_foldl_push hasher (data.take (64 - bytes.length))
  by_cases fits : bytes.length + data.length < 64
  · -- Everything goes into the buffer, and it is not full.
    have filled := holds.foldl_push data (Nat.le_of_lt fits)
    have little : (bytes ++ data).length < 64 := by rwa [List.length_append]
    rw [List.take_of_length_le (by omega)] at kept
    rw [List.take_of_length_le (by omega), List.drop_eq_nil_of_le (by omega),
      wholeBlocks_short little, leftover_short little]
    have unflushed : (data.foldl Sha256.push hasher).flush processBlock =
        data.foldl Sha256.push hasher := by
      rw [flush, if_neg]
      rw [filled.bufferLen, List.length_append]
      omega
    rw [unflushed, @wholeBlocks_short UInt8 64 []
      (by decide), @leftover_short UInt8 64 [] (by decide)]
    exact ⟨kept.state, filled⟩
  · -- The buffer becomes a block, and the others follow from the data itself.
    have whole : (bytes ++ data.take (64 - bytes.length)).length = 64 := by
      rw [List.length_append, List.length_take]
      omega
    have filled :=
      holds.foldl_push (data.take (64 - bytes.length)) (by rw [← List.length_append, whole])
    have parts : bytes ++ data =
        (bytes ++ data.take (64 - bytes.length)) ++ data.drop (64 - bytes.length) := by
      rw [List.append_assoc, List.take_append_drop]
    rw [parts, wholeBlocks_cons (by decide) whole, leftover_cons (by decide) whole]
    generalize (data.take (64 - bytes.length)).foldl Sha256.push hasher = full at kept filled ⊢
    generalize data.drop (64 - bytes.length) = later
    have flushed : full.flush processBlock =
        { full.processBuffer processBlock with bufferLen := 0 } := by
      rw [flush, if_pos (filled.bufferLen.trans whole)]
    rw [flushed]
    simp only [processBuffer, filled.toList whole, kept.state]
    have last := length_leftover_lt (show 0 < 64 by decide) later
    refine ⟨(kept_foldl_push _ _).state, ?_⟩
    have empty : Sha256.Holds
        { full with
          bufferLen := 0
          state := (wholeBlocks 64 later).foldl processBlock
            (processBlock hasher.state (bytes ++ data.take (64 - bytes.length))) } [] :=
      ⟨rfl, by decide, rfl⟩
    exact empty.foldl_push (leftover 64 later) (by rw [List.length_nil]; omega)

theorem Consumed.update {message : Bytes} (consumed : hasher.Consumed processBlock message)
    (data : Bytes) :
    (hasher.updateWith processBlock data).Consumed processBlock (message ++ data) := by
  have total : hasher.totalLen + UInt64.ofNat data.length =
      UInt64.ofNat (message ++ data).length := by
    rw [consumed.totalLen, List.length_append, UInt64.ofNat_add]
  have plain : (if hasher.finalized then hasher.reset else hasher) = hasher :=
    if_neg (by rw [consumed.unfinished]; exact Bool.false_ne_true)
  unfold updateWith
  rw [plain]
  dsimp only
  rw [total]
  have holds : ({ hasher with totalLen := UInt64.ofNat (message ++ data).length } : Sha256).Holds
    (leftover 64 message) :=
    ⟨consumed.holds.bufferLen, consumed.holds.room, consumed.holds.front⟩
  obtain ⟨state, front⟩ :=
    @Holds.absorb _ _ processBlock holds (length_leftover_lt (by decide) message) data
  have kept :=
    @kept_absorb processBlock { hasher with totalLen := UInt64.ofNat (message ++ data).length } data
  refine ⟨kept.2.trans consumed.unfinished, kept.1, ?_, ?_⟩
  · rw [state, wholeBlocks_append (by decide) message, List.foldl_append, ← consumed.state]
  · rwa [leftover_append (by decide) message]

theorem Consumed.foldl_update {message : Bytes} (consumed : hasher.Consumed processBlock message)
    (pieces : List Bytes) :
    (pieces.foldl (updateWith processBlock) hasher).Consumed processBlock
      (message ++ pieces.flatten) := by
  induction pieces generalizing hasher message with
  | nil => rwa [List.flatten_nil, List.append_nil]
  | cons piece rest ih =>
    rw [List.flatten_cons, ← List.append_assoc]
    exact ih (consumed.update piece)

/-- A hasher that starts anew with the next update. -/
inductive Ready : Sha256 → Prop
  | fresh (buffer : Vector UInt8 64) : Ready (.fresh buffer)
  | finalized {hasher : Sha256} (done : hasher.finalized = true) : Ready hasher

theorem Ready.foldl_update (ready : hasher.Ready) {pieces : List Bytes} (some : pieces ≠ []) :
    (pieces.foldl (updateWith processBlock) hasher).Consumed processBlock pieces.flatten := by
  cases ready with
  | fresh buffer => exact (consumed_fresh buffer).foldl_update pieces
  | @finalized hasher done =>
    cases pieces with
    | nil => exact absurd rfl some
    | cons piece rest =>
      have again : hasher.updateWith
          processBlock piece = hasher.reset.updateWith processBlock piece := by
        unfold updateWith
        rw [done, if_pos rfl]
        rfl
      rw [List.foldl_cons, again]
      exact (consumed_reset hasher).foldl_update (piece :: rest)

theorem padZeros_eq (hasher : Sha256) :
    hasher.padZeros = (List.replicate (56 - hasher.bufferLen) 0).foldl push hasher := by
  induction hasher using padZeros.induct with
  | case1 hasher more ih =>
    rw [padZeros, if_pos more, ih, show 56 - hasher.bufferLen =
      (56 - (hasher.push 0).bufferLen) + 1 by simp only [push]; omega]
    rfl
  | case2 hasher enough =>
    rw [padZeros, if_neg enough, show 56 - hasher.bufferLen = 0 by omega]
    rfl

theorem be64_eq (value : UInt64) :
    be64 value = [(value >>> 56).toUInt8, (value >>> 48).toUInt8,
      (value >>> 40).toUInt8, (value >>> 32).toUInt8,
      (value >>> 24).toUInt8, (value >>> 16).toUInt8, (value >>> 8).toUInt8, value.toUInt8] := by
  have byte : ∀ shift : UInt64, (value >>> shift).toUInt8 =
      UInt8.ofNat (value.toNat >>> (shift.toNat % 64)) := by
    intro shift
    apply UInt8.toNat_inj.mp
    rw [UInt64.toNat_toUInt8, UInt64.toNat_shiftRight, UInt8.toNat_ofNat']
  simp only [be64, be, le, List.reverse_cons, List.reverse_nil, List.nil_append, List.cons_append,
    byte, Nat.div_div_eq_div_mul, Nat.shiftRight_eq_div_pow]
  rfl

theorem set_all_eight {α : Type} {list : List α} (size : list.length = 8)
    (x₀ x₁ x₂ x₃ x₄ x₅ x₆ x₇ : α) :
    (((((((list.set 0 x₀).set 1 x₁).set 2 x₂).set 3 x₃).set 4 x₄).set 5 x₅).set 6 x₆).set 7 x₇ =
      [x₀, x₁, x₂, x₃, x₄, x₅, x₆, x₇] := by
  refine List.ext_getElem (by simpa using size) fun i inside _ => ?_
  have bound : i < 8 := by simpa [size] using inside
  interval_cases i <;> simp

theorem toList_putLength (hasher : Sha256) (bitLen : UInt64) :
    (hasher.putLength bitLen).buffer.toList = hasher.buffer.toList.take 56 ++ be64 bitLen := by
  have size : (hasher.buffer.toList.drop 56).length = 8 := by
    rw [List.length_drop, Vector.length_toList]
  have front : (hasher.buffer.toList.take 56).length = 56 := by
    rw [List.length_take, Vector.length_toList]; rfl
  have parts : hasher.buffer.toList =
      hasher.buffer.toList.take 56 ++ hasher.buffer.toList.drop 56 :=
    (List.take_append_drop 56 _).symm
  simp only [putLength, Vector.toList_setIfInBounds]
  rw [be64_eq, parts, List.take_left' front]
  generalize hasher.buffer.toList.take 56 = before at front ⊢
  generalize hasher.buffer.toList.drop 56 = last at size ⊢
  have set_last : ∀ (list : List UInt8) (i : Nat) (byte : UInt8),
      (before ++ list).set (56 + i) byte = before ++ list.set i byte := by
    intro list i byte
    rw [List.set_append_right _ _ (by omega), front, Nat.add_sub_cancel_left]
  rw [← set_all_eight size]
  iterate 8 rw [← set_last]

/-- The padded end of a message whose last bytes are left over. -/
def finalBlocks (rest : Bytes) (bitLen : UInt64) : List Bytes :=
  if rest.length < 56 then [rest ++ 0x80 :: (List.replicate (55 - rest.length) 0 ++ be64 bitLen)]
  else [rest.take 56 ++ be64 bitLen, List.replicate 56 0 ++ be64 bitLen]

def chain (processBlock : HashWords → Bytes → HashWords) (message : Bytes) : HashWords :=
  (wholeBlocks 64 message ++ finalBlocks (leftover 64 message)
    (UInt64.ofNat message.length * 8)).foldl processBlock .initial

theorem Holds.take_front (holds : hasher.Holds bytes) {count : Nat}
    (inside : count ≤ bytes.length) :
    hasher.buffer.toList.take count = bytes.take count := by
  conv_rhs => rw [← holds.front, List.take_take, Nat.min_eq_left inside]

/-- The block at hand, closed with zeros, if there is room for them, and the length. -/
def closed (hasher : Sha256) (bitLen : UInt64) : Sha256 := hasher.padZeros.putLength bitLen

theorem Holds.toList_closed (holds : hasher.Holds bytes) (bitLen : UInt64) :
    (hasher.closed bitLen).buffer.toList =
      (bytes ++ List.replicate (56 - bytes.length) 0).take 56 ++ be64 bitLen := by
  have room := holds.room
  have padded :=
    holds.foldl_push (List.replicate (56 - bytes.length) 0) (by rw [List.length_replicate]; omega)
  rw [closed, toList_putLength, padZeros_eq, holds.bufferLen,
    padded.take_front (by rw [List.length_append, List.length_replicate]; omega)]

theorem bufferLen_with_buffer (hasher : Sha256) (buffer : Vector UInt8 64) :
    ({ hasher with buffer := buffer } : Sha256).bufferLen = hasher.bufferLen := rfl

theorem state_with_buffer (hasher : Sha256) (buffer : Vector UInt8 64) :
    ({ hasher with buffer := buffer } : Sha256).state = hasher.state := rfl

theorem Holds.bufferLen_closed (holds : hasher.Holds bytes) (bitLen : UInt64) :
    (hasher.closed bitLen).bufferLen = bytes.length + (56 - bytes.length) := by
  have room := holds.room
  have padded :=
    holds.foldl_push (List.replicate (56 - bytes.length) 0) (by rw [List.length_replicate]; omega)
  rw [closed, putLength, bufferLen_with_buffer, padZeros_eq, holds.bufferLen, padded.bufferLen,
    List.length_append, List.length_replicate]

theorem state_closed (hasher : Sha256) (bitLen : UInt64) :
    (hasher.closed bitLen).state = hasher.state := by
  rw [closed, putLength, state_with_buffer, padZeros_eq, (kept_foldl_push _ _).state]

theorem finalizeWith_eq (unfinished : hasher.finalized = false) :
    hasher.finalizeWith processBlock =
      let first := ((hasher.push 0x80).closed (hasher.totalLen * 8)).processBuffer processBlock
      let last := if 56 < first.bufferLen then
        ({ first with bufferLen := 0 }.closed (hasher.totalLen * 8)).processBuffer processBlock
          else first
      (last.state.digest, { last with finalized := true }) := by
  unfold finalizeWith
  rw [if_neg (by rw [unfinished]; exact Bool.false_ne_true)]
  rfl

theorem Consumed.finalize {message : Bytes} (consumed : hasher.Consumed processBlock message) :
    (hasher.finalizeWith processBlock).2.state = chain processBlock message ∧
      (hasher.finalizeWith processBlock).2.finalized = true ∧
      (hasher.finalizeWith processBlock).1 = (chain processBlock message).digest := by
  have short := length_leftover_lt (show 0 < 64 by decide) message
  have ended := consumed.holds.push short 0x80
  rw [finalizeWith_eq consumed.unfinished, chain, List.foldl_append,
    ← consumed.state, consumed.totalLen]
  generalize leftover 64 message = rest at short ended ⊢
  generalize UInt64.ofNat message.length * 8 = bitLen
  have block := ended.toList_closed bitLen
  have bufferLen := ended.bufferLen_closed bitLen
  have before : ((hasher.push 0x80).closed bitLen).state = hasher.state := state_closed _ bitLen
  rw [List.length_append, List.length_singleton] at block bufferLen
  generalize (hasher.push 0x80).closed bitLen = first at block bufferLen before ⊢
  have same : (if 56 < (first.processBuffer processBlock).bufferLen then
      ({ first.processBuffer processBlock with bufferLen := 0 }.closed
        bitLen).processBuffer processBlock
      else first.processBuffer processBlock).state =
        (finalBlocks rest bitLen).foldl processBlock hasher.state := by
    have state : (first.processBuffer processBlock).state =
        processBlock hasher.state first.buffer.toList := by
      rw [← before]
      rfl
    have length : (first.processBuffer processBlock).bufferLen = first.bufferLen := rfl
    rw [length, bufferLen]
    unfold finalBlocks
    by_cases room : rest.length < 56
    · have whole : (rest ++ [0x80] ++ List.replicate (56 - (rest.length + 1)) 0).length = 56 := by
        rw [List.length_append, List.length_append, List.length_replicate, List.length_singleton]
        omega
      rw [if_neg (by omega), if_pos room, state, block, List.take_of_length_le (Nat.le_of_eq whole),
        show 56 - (rest.length + 1) = 55 - rest.length by omega, List.append_assoc,
        List.append_assoc]
      rfl
    · have empty : Sha256.Holds { first.processBuffer processBlock with bufferLen := 0 } [] :=
        ⟨rfl, by decide, rfl⟩
      have second := empty.toList_closed bitLen
      have between := state_closed { first.processBuffer processBlock with bufferLen := 0 } bitLen
      rw [if_pos (by omega), if_neg room]
      generalize Sha256.closed _ bitLen = last at second between ⊢
      have ending : (last.processBuffer processBlock).state =
          processBlock last.state last.buffer.toList := rfl
      rw [ending, second, between]
      change processBlock (first.processBuffer processBlock).state _ = _
      rw [state, block, show 56 - (rest.length + 1) = 0 by omega, List.replicate_zero,
        List.append_nil, List.take_append_of_le_length (Nat.le_of_not_lt room)]
      rfl
  exact ⟨same, rfl, congrArg HashWords.digest same⟩

/-- However the data comes in pieces, the digest is the same one, and stays. -/
theorem finalize_pieces {first second : Sha256} (ready : first.Ready) (alsoReady : second.Ready)
    {pieces others : List Bytes} (some : pieces ≠ []) (alsoSome : others ≠ [])
    (same : pieces.flatten = others.flatten) :
    (pieces.foldl update first).finalize.1 = (others.foldl update second).finalize.1 ∧
      (pieces.foldl update first).finalize.2.finalize.1 =
        (pieces.foldl update first).finalize.1 := by
  have one := (@Ready.foldl_update _ Sha256.processBlock ready _ some).finalize
  have two := (@Ready.foldl_update _ Sha256.processBlock alsoReady _ alsoSome).finalize
  refine ⟨one.2.2.trans
    ((congrArg (fun message => (chain Sha256.processBlock message).digest) same).trans
    two.2.2.symm), ?_⟩
  have again : ∀ {done : Sha256}, done.finalized = true → done.finalize.1 = done.state.digest := by
    intro done finalized
    unfold finalize finalizeWith
    rw [if_pos finalized]
  exact (again one.2.1).trans ((congrArg HashWords.digest one.1).trans one.2.2.symm)

theorem finalize_pieces_of_three :
    ([[1], [], [2, 3]].foldl update (fresh (Vector.replicate 64 0))).finalize.1 =
      ([[1, 2, 3]].foldl update ⟨Vector.replicate 64 7, 9, 9, .initial, true⟩).finalize.1 :=
  (@finalize_pieces _ _ (.fresh (Vector.replicate 64 0)) (.finalized rfl)
    [[1], [], [2, 3]] [[1, 2, 3]]
    (List.cons_ne_nil _ _) (List.cons_ne_nil _ _) rfl).1

end Sha256

end VectorTick
