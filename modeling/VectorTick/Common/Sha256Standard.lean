import Mathlib.Data.List.GetD
import VectorTick.Common.Sha256

/-! The hash function of FIPS 180-4, and what the hasher computes of it.

The hasher follows the standard but for two things: the last eight constants of its table, and the
block that the padding of a message begins in when it ends in the next one. -/

set_option autoImplicit false

namespace VectorTick.Fips180

open Foundation

/-- The first sixty-four primes. -/
def primes : List Nat := [
  2, 3, 5, 7, 11, 13, 17, 19, 23, 29, 31, 37, 41, 43, 47, 53,
  59, 61, 67, 71, 73, 79, 83, 89, 97, 101, 103, 107, 109, 113, 127, 131,
  137, 139, 149, 151, 157, 163, 167, 173, 179, 181, 191, 193, 197, 199, 211, 223,
  227, 229, 233, 239, 241, 251, 257, 263, 269, 271, 277, 281, 283, 293, 307, 311]

/-- The first thirty-two bits of the fractional parts of the cube roots of the primes. -/
def constants : List UInt32 := [
  0x428a2f98, 0x71374491, 0xb5c0fbcf, 0xe9b5dba5, 0x3956c25b, 0x59f111f1, 0x923f82a4, 0xab1c5ed5,
  0xd807aa98, 0x12835b01, 0x243185be, 0x550c7dc3, 0x72be5d74, 0x80deb1fe, 0x9bdc06a7, 0xc19bf174,
  0xe49b69c1, 0xefbe4786, 0x0fc19dc6, 0x240ca1cc, 0x2de92c6f, 0x4a7484aa, 0x5cb0a9dc, 0x76f988da,
  0x983e5152, 0xa831c66d, 0xb00327c8, 0xbf597fc7, 0xc6e00bf3, 0xd5a79147, 0x06ca6351, 0x14292967,
  0x27b70a85, 0x2e1b2138, 0x4d2c6dfc, 0x53380d13, 0x650a7354, 0x766a0abb, 0x81c2c92e, 0x92722c85,
  0xa2bfe8a1, 0xa81a664b, 0xc24b8b70, 0xc76c51a3, 0xd192e819, 0xd6990624, 0xf40e3585, 0x106aa070,
  0x19a4c116, 0x1e376c08, 0x2748774c, 0x34b0bcb5, 0x391c0cb3, 0x4ed8aa4a, 0x5b9cca4f, 0x682e6ff3,
  0x748f82ee, 0x78a5636f, 0x84c87814, 0x8cc70208, 0x90befffa, 0xa4506ceb, 0xbef9a3f7, 0xc67178f2]

/-- Each constant, behind the whole part of the root, is the root in units
of `2 ^ -32`, rounded down. -/
theorem constants_cubeRoot : ∀ i < 64, ∃ whole < 7,
    (2 ^ 32 * whole + (constants.getD i 0).toNat) ^ 3 ≤ primes.getD i 0 * 2 ^ 96 ∧
      primes.getD i 0 * 2 ^ 96 < (2 ^ 32 * whole + (constants.getD i 0).toNat + 1) ^ 3 := by
  decide

def initial : HashWords :=
  ⟨0x6a09e667, 0xbb67ae85, 0x3c6ef372, 0xa54ff53a, 0x510e527f, 0x9b05688c, 0x1f83d9ab, 0x5be0cd19⟩

theorem initial_squareRoot : ∀ i < 8, ∃ whole < 5,
    (2 ^ 32 * whole + (initial.toList.getD i 0).toNat) ^ 2 ≤ primes.getD i 0 * 2 ^ 64 ∧
      primes.getD i 0 * 2 ^ 64 < (2 ^ 32 * whole + (initial.toList.getD i 0).toNat + 1) ^ 2 := by
  decide

def rotateRight (x : UInt32) (n : Nat) : UInt32 := ⟨x.toBitVec.rotateRight n⟩

def ch (x y z : UInt32) : UInt32 := (x &&& y) ^^^ (~~~x &&& z)

def maj (x y z : UInt32) : UInt32 := (x &&& y) ^^^ (x &&& z) ^^^ (y &&& z)

def bigSigma0 (x : UInt32) : UInt32 := rotateRight x 2 ^^^ rotateRight x 13 ^^^ rotateRight x 22

def bigSigma1 (x : UInt32) : UInt32 := rotateRight x 6 ^^^ rotateRight x 11 ^^^ rotateRight x 25

def smallSigma0 (x : UInt32) : UInt32 := rotateRight x 7 ^^^ rotateRight x 18 ^^^ (x >>> 3)

def smallSigma1 (x : UInt32) : UInt32 := rotateRight x 17 ^^^ rotateRight x 19 ^^^ (x >>> 10)

/-- The message schedule. -/
def word (block : Bytes) (t : Nat) : UInt32 :=
  if t < 16 then be32Of (slice block (4 * t) 4)
  else smallSigma1 (word block (t - 2)) + word block (t - 7) + smallSigma0
    (word block (t - 15)) + word block (t - 16)
termination_by t

def step (words : HashWords) (constant word : UInt32) : HashWords :=
  let t1 := words.h + bigSigma1 words.e + ch words.e words.f words.g + constant + word
  let t2 := bigSigma0 words.a + maj words.a words.b words.c
  { h := words.g, g := words.f, f := words.e, e := words.d + t1, d := words.c, c := words.b,
    b := words.a, a := t1 + t2 }

def steps (constants words : Nat → UInt32) (start : HashWords) : Nat → HashWords
  | 0 => start
  | t + 1 => step (steps constants words start t) (constants t) (words t)

/-- The constants are a parameter, to be able to say what comes of other ones. -/
def compress (constants : List UInt32) (value : HashWords) (block : Bytes) : HashWords :=
  value.add (steps (constants.getD · 0) (word block) value 64)

/-- A one, as few zeros as fill up a block, and the length in bits. -/
def pad (message : Bytes) : Bytes :=
  message ++ 0x80 ::
    (List.replicate ((119 - message.length % 64) % 64) 0 ++ be 8 (8 * message.length))

def blocks (message : Bytes) : List Bytes := wholeBlocks 64 (pad message)

def digest (words : HashWords) : Bytes := words.toList.flatMap be32

def sha256 (message : Bytes) : Bytes := digest ((blocks message).foldl (compress constants) initial)

end VectorTick.Fips180

namespace VectorTick.Sha256

open Foundation

theorem rotr_eq (x : UInt32) {n : Nat} (some : 0 < n) (few : n < 32) :
    rotr x (UInt32.ofNat n) = Fips180.rotateRight x n := by
  apply UInt32.toBitVec_inj.mp
  have right : ((UInt32.ofNat n).toBitVec % 32).toNat = n := by
    rw [BitVec.toNat_umod, UInt32.toNat_toBitVec, UInt32.toNat_ofNat',
      Nat.mod_eq_of_lt (by omega : n < 2 ^ 32)]
    exact Nat.mod_eq_of_lt few
  have left : ((32 - UInt32.ofNat n).toBitVec % 32).toNat = 32 - n := by
    rw [BitVec.toNat_umod, UInt32.toNat_toBitVec, UInt32.toNat_sub, UInt32.toNat_ofNat',
      Nat.mod_eq_of_lt (by omega : n < 2 ^ 32)]
    change (2 ^ 32 - n + 32) % 2 ^ 32 % 32 = 32 - n
    omega
  rw [rotr, UInt32.toBitVec_or, UInt32.toBitVec_shiftRight, UInt32.toBitVec_shiftLeft,
    BitVec.ushiftRight_eq', BitVec.shiftLeft_eq', right, left]
  change _ = x.toBitVec.rotateRight n
  rw [BitVec.rotateRight_def, Nat.mod_eq_of_lt few]

theorem sigma0_eq (x : UInt32) : sigma0 x = Fips180.bigSigma0 x := by
  unfold sigma0 Fips180.bigSigma0
  rw [← rotr_eq x (by decide) (by decide : 2 < 32), ← rotr_eq x (by decide) (by decide : 13 < 32),
    ← rotr_eq x (by decide) (by decide : 22 < 32)]
  rfl

theorem sigma1_eq (x : UInt32) : sigma1 x = Fips180.bigSigma1 x := by
  unfold sigma1 Fips180.bigSigma1
  rw [← rotr_eq x (by decide) (by decide : 6 < 32), ← rotr_eq x (by decide) (by decide : 11 < 32),
    ← rotr_eq x (by decide) (by decide : 25 < 32)]
  rfl

theorem gamma0_eq (x : UInt32) : gamma0 x = Fips180.smallSigma0 x := by
  unfold gamma0 Fips180.smallSigma0
  rw [← rotr_eq x (by decide) (by decide : 7 < 32), ← rotr_eq x (by decide) (by decide : 18 < 32)]
  rfl

theorem gamma1_eq (x : UInt32) : gamma1 x = Fips180.smallSigma1 x := by
  unfold gamma1 Fips180.smallSigma1
  rw [← rotr_eq x (by decide) (by decide : 17 < 32), ← rotr_eq x (by decide) (by decide : 19 < 32)]
  rfl

theorem round_eq (words : HashWords) (constant word : UInt32) :
    words.round constant word = Fips180.step words constant word := by
  unfold HashWords.round Fips180.step
  rw [sigma0_eq, sigma1_eq]
  rfl

theorem join_bytes (b₀ b₁ b₂ b₃ : UInt8) :
    (b₀.toUInt32 <<< 24) ||| (b₁.toUInt32 <<< 16) ||| (b₂.toUInt32 <<< 8) ||| b₃.toUInt32 =
      be32Of [b₀, b₁, b₂, b₃] := by
  have h₀ := b₀.toNat_lt
  have h₁ := b₁.toNat_lt
  have h₂ := b₂.toNat_lt
  have h₃ := b₃.toNat_lt
  have value : beValue [b₀, b₁, b₂, b₃] =
      2 ^ 8 * (2 ^ 16 * b₀.toNat + 2 ^ 8 * b₁.toNat + b₂.toNat) + b₃.toNat := by
    simp only [beValue, List.reverse_cons, List.reverse_nil, List.nil_append,
      List.cons_append, leValue]
    omega
  have shift : ∀ (b : UInt8) (count : Nat), count ≤ 24 →
      (b.toUInt32 <<< UInt32.ofNat count).toNat = 2 ^ count * b.toNat := by
    intro b count small
    have below := b.toNat_lt
    have power : 2 ^ count ≤ 2 ^ 24 := Nat.pow_le_pow_right (by decide) small
    rw [UInt32.toNat_shiftLeft, UInt32.toNat_ofNat', Nat.mod_eq_of_lt (by omega : count < 2 ^ 32),
      Nat.mod_eq_of_lt (by omega : count < 32), UInt8.toNat_toUInt32, Nat.shiftLeft_eq,
      Nat.mul_comm, Nat.mod_eq_of_lt]
    calc 2 ^ count * b.toNat ≤ 2 ^ 24 * 255 := Nat.mul_le_mul power (by omega)
      _ < 2 ^ 32 := by decide
  apply UInt32.toNat_inj.mp
  have s₀ := shift b₀ 24 (by decide)
  have s₁ := shift b₁ 16 (by decide)
  have s₂ := shift b₂ 8 (by decide)
  rw [UInt32.toNat_or, UInt32.toNat_or, UInt32.toNat_or, UInt8.toNat_toUInt32]
  change ((b₀.toUInt32 <<< UInt32.ofNat 24).toNat ||| (b₁.toUInt32 <<< UInt32.ofNat 16).toNat |||
    (b₂.toUInt32 <<< UInt32.ofNat 8).toNat) ||| b₃.toNat = _
  rw [s₀, s₁, s₂, ← Nat.two_pow_add_eq_or_of_lt (by omega : 2 ^ 16 * b₁.toNat < 2 ^ 24),
    show 2 ^ 24 * b₀.toNat + 2 ^ 16 * b₁.toNat = 2 ^ 16 * (2 ^ 8 * b₀.toNat + b₁.toNat) by omega,
    ← Nat.two_pow_add_eq_or_of_lt (by omega : 2 ^ 8 * b₂.toNat < 2 ^ 16),
    show 2 ^ 16 * (2 ^ 8 * b₀.toNat + b₁.toNat) + 2 ^ 8 * b₂.toNat =
      2 ^ 8 * (2 ^ 16 * b₀.toNat + 2 ^ 8 * b₁.toNat + b₂.toNat) by omega,
    ← Nat.two_pow_add_eq_or_of_lt (by omega : b₃.toNat < 2 ^ 8), be32Of, UInt32.toNat_ofNat', value,
      Nat.mod_eq_of_lt (by omega)]

theorem blockWord_eq {block : Bytes} (whole : block.length = 64) {t : Nat} (early : t < 16) :
    blockWord block t = be32Of (slice block (4 * t) 4) := by
  have bytes : slice block (4 * t) 4 =
      [block.getD (t * 4) 0, block.getD (t * 4 + 1) 0, block.getD (t * 4 + 2) 0,
        block.getD (t * 4 + 3) 0] := by
    rw [Nat.mul_comm, show 4 = 1 + (1 + (1 + 1)) from rfl, slice_add, slice_add, slice_add,
      ← slice_byte (by omega), ← slice_byte (by omega), ← slice_byte (by omega),
      ← slice_byte (by omega)]
    rfl
  rw [bytes, ← join_bytes]
  rfl

theorem schedule_spec {block : Bytes} (whole : block.length = 64) (count : Nat) :
    ((List.range' 16 count).foldl extendSchedule ((List.range 16).map (blockWord block))).length =
      16 + count ∧
      ∀ t < 16 + count,
        ((List.range' 16 count).foldl extendSchedule
          ((List.range 16).map (blockWord block))).getD t 0 =
          Fips180.word block t := by
  induction count with
  | zero =>
    refine ⟨by simp, fun t early => ?_⟩
    rw [Fips180.word, if_pos early, ← blockWord_eq whole early]
    simp [List.getD_eq_getElem?_getD, show t < 16 from early]
  | succ count ih =>
    obtain ⟨size, filled⟩ := ih
    rw [List.range'_concat, List.foldl_append, Nat.one_mul, List.foldl_cons, List.foldl_nil]
    generalize (List.range' 16 count).foldl extendSchedule ((List.range 16).map (blockWord block)) =
      w at size filled ⊢
    unfold extendSchedule
    refine ⟨by rw [List.length_append, size, List.length_singleton]; rfl, fun t inside => ?_⟩
    by_cases last : t = 16 + count
    · rw [List.getD_append_right _ _ _ _ (by omega), last, size, Nat.sub_self, List.getD_cons_zero,
        filled _ (by omega), filled _ (by omega), filled _ (by omega), filled _ (by omega),
        gamma0_eq, gamma1_eq, Fips180.word.eq_1 block (16 + count), if_neg (by omega)]
    · rw [List.getD_append _ _ _ _ (by omega)]
      exact filled t (by omega)

theorem foldl_round_eq {constants words others : Nat → UInt32} (start : HashWords) {count : Nat}
    (same : ∀ t < count, words t = others t) :
    (List.range count).foldl (fun state i => state.round (constants i) (words i)) start =
      Fips180.steps constants others start count := by
  induction count with
  | zero => rfl
  | succ count ih =>
    rw [List.range_succ, List.foldl_append, ih fun t early => same t (Nat.lt_succ_of_lt early),
      List.foldl_cons, List.foldl_nil, round_eq, same count (Nat.lt_succ_self count)]
    rfl

theorem processBlock_eq (state : HashWords) {block : Bytes} (whole : block.length = 64) :
    processBlock state block = Fips180.compress K state block := by
  have loop :=
    @foldl_round_eq (K.getD · 0) ((schedule block).getD · 0) (Fips180.word block) state 64
    (schedule_spec whole 48).2
  unfold processBlock Fips180.compress
  rw [← loop]

end VectorTick.Sha256

namespace VectorTick.Fips180

open Foundation

/-- The part of a step that the constant goes into. -/
def firstTerm (words : HashWords) (constant word : UInt32) : UInt32 :=
  words.h + bigSigma1 words.e + ch words.e words.f words.g + constant + word

structure SameFront (first second : HashWords) : Prop where
  a : first.a = second.a
  b : first.b = second.b
  c : first.c = second.c
  d : first.d = second.d

section

variable {first second : HashWords} {constant other word : UInt32}

theorem SameFront.firstTerm (same : SameFront (step first constant word) (step second other word)) :
    firstTerm first constant word = firstTerm second other word := by
  have a : first.a = second.a := same.b
  have b : first.b = second.b := same.c
  have c : first.c = second.c := same.d
  have sum : Fips180.firstTerm first constant word +
      (bigSigma0 first.a + maj first.a first.b first.c) =
      Fips180.firstTerm second other word + (bigSigma0 second.a + maj second.a second.b second.c) :=
        same.a
  rw [a, b, c] at sum
  exact (UInt32.add_left_inj _).mp sum

theorem SameFront.back (same : SameFront (step first constant word) (step second other word))
    (e : (step first constant word).e = (step second other word).e) : SameFront first second := by
  refine ⟨same.b, same.c, same.d, ?_⟩
  have sum : first.d + Fips180.firstTerm first constant word =
      second.d + Fips180.firstTerm second other word := e
  rw [same.firstTerm] at sum
  exact (UInt32.add_left_inj _).mp sum

theorem SameFront.last (same : SameFront (step first constant word) (step second other word))
    (e : first.e = second.e)
    (f : first.f = second.f) (g : first.g = second.g) (h : first.h = second.h) :
    constant = other := by
  have sum := same.firstTerm
  unfold Fips180.firstTerm at sum
  rw [e, f, g, h] at sum
  exact (UInt32.add_right_inj _).mp ((UInt32.add_left_inj _).mp sum)

end

/-- Eight steps replace every word. If they end in the same words, and the first word was the
same before them, then the last of their constants is the same: the words that the others went
into are recovered from the end. -/
theorem steps_last_constant {constants others words : Nat → UInt32}
    {start other : HashWords} {count : Nat}
    (begin : (steps constants words start count).a = (steps others words other count).a)
    (ends : steps constants words start (count + 8) = steps others words other (count + 8)) :
    constants (count + 7) = others (count + 7) := by
  generalize first : steps constants words start = S at begin ends
  generalize second : steps others words other = T at begin ends
  have s : ∀ t, S (t + 1) = step (S t) (constants t) (words t) := by
    intro t
    rw [← first]
    rfl
  have t : ∀ t, T (t + 1) = step (T t) (others t) (words t) := by
    intro t
    rw [← second]
    rfl
  have d : (S (count + 3)).d = (T (count + 3)).d := by
    rw [s (count + 2), t (count + 2)]
    change (S (count + 2)).c = (T (count + 2)).c
    rw [s (count + 1), t (count + 1)]
    change (S (count + 1)).b = (T (count + 1)).b
    rw [s count, t count]
    exact begin
  have front₈ : SameFront (step (S (count + 7)) (constants (count + 7)) (words (count + 7)))
      (step (T (count + 7)) (others (count + 7)) (words (count + 7))) := by
    rw [← s, ← t, ends]
    exact ⟨rfl, rfl, rfl, rfl⟩
  have whole : step (S (count + 7)) (constants (count + 7)) (words (count + 7)) =
      step (T (count + 7)) (others (count + 7)) (words (count + 7)) := by
    rw [← s, ← t]
    exact ends
  have front₇ := front₈.back (congrArg HashWords.e whole)
  have e₇ : (S (count + 7)).e = (T (count + 7)).e := congrArg HashWords.f whole
  have f₇ : (S (count + 7)).f = (T (count + 7)).f := congrArg HashWords.g whole
  have g₇ : (S (count + 7)).g = (T (count + 7)).g := congrArg HashWords.h whole
  rw [s (count + 6), t (count + 6)] at front₇ e₇ f₇ g₇
  have front₆ := front₇.back e₇
  have e₆ : (S (count + 6)).e = (T (count + 6)).e := f₇
  have f₆ : (S (count + 6)).f = (T (count + 6)).f := g₇
  rw [s (count + 5), t (count + 5)] at front₆ e₆ f₆
  have front₅ := front₆.back e₆
  have e₅ : (S (count + 5)).e = (T (count + 5)).e := f₆
  rw [s (count + 4), t (count + 4)] at front₅ e₅
  have front₄ := front₅.back e₅
  rw [s (count + 3), t (count + 3)] at front₄
  -- The first word before the eight steps is the fourth after three, and goes into the fifth.
  have e₄ : (S (count + 4)).e = (T (count + 4)).e := by
    rw [s (count + 3), t (count + 3)]
    change (S (count + 3)).d + firstTerm _ _ _ = (T (count + 3)).d + firstTerm _ _ _
    rw [d, front₄.firstTerm]
  have h₇ : (S (count + 7)).h = (T (count + 7)).h := by
    rw [s (count + 6), t (count + 6)]
    change (S (count + 6)).g = (T (count + 6)).g
    rw [s (count + 5), t (count + 5)]
    change (S (count + 5)).f = (T (count + 5)).f
    rw [s (count + 4), t (count + 4)]
    exact e₄
  exact front₈.last (congrArg HashWords.f whole) (congrArg HashWords.g whole)
    (congrArg HashWords.h whole) h₇

theorem add_cancel {value first second : HashWords} (same : value.add first = value.add second) :
    first = second := by
  simp only [HashWords.add, HashWords.mk.injEq, UInt32.add_right_inj] at same
  obtain ⟨a, b, c, d, e, f, g, h⟩ := same
  exact HashWords.ext a b c d e f g h

theorem steps_of_agree {constants others words : Nat → UInt32} {start : HashWords} {count : Nat}
    (agree : ∀ t < count, constants t = others t) :
    steps constants words start count = steps others words start count := by
  induction count with
  | zero => rfl
  | succ count ih =>
    rw [steps, steps, ih fun t early => agree t (Nat.lt_succ_of_lt early),
    agree count (Nat.lt_succ_self count)]

/-- The same value and the same block never give the same value under the table and under
the constants of the standard. -/
theorem compress_table_ne (value : HashWords) (block : Bytes) :
    compress K value block ≠ compress constants value block := by
  intro same
  unfold compress at same
  have words : steps (K.getD · 0) (word block) value (56 + 8) = steps (constants.getD · 0)
      (word block) value (56 + 8) :=
    add_cancel same
  have early : steps (K.getD · 0) (word block) value 56 = steps (constants.getD · 0)
      (word block) value 56 :=
    steps_of_agree (by decide)
  exact absurd (steps_last_constant (congrArg HashWords.a early) words) (by decide)

end VectorTick.Fips180

namespace VectorTick.Sha256

open Foundation

/-- The blocks that the hasher compresses. -/
def blocksOf (message : Bytes) : List Bytes :=
  wholeBlocks 64 message ++ finalBlocks (leftover 64 message) (UInt64.ofNat message.length * 8)

theorem length_of_mem_blocksOf {message block : Bytes} (listed : block ∈ blocksOf message) :
    block.length = 64 := by
  have short := length_leftover_lt (show 0 < 64 by decide) message
  unfold blocksOf finalBlocks at listed
  rcases List.mem_append.mp listed with listed | listed
  · exact length_of_mem_wholeBlocks listed
  · by_cases room : (leftover 64 message).length < 56
    · rw [if_pos room, List.mem_singleton] at listed
      rw [listed, List.length_append, List.length_cons, List.length_append,
        List.length_replicate, length_be64]
      omega
    · rw [if_neg room, List.mem_cons, List.mem_singleton] at listed
      rcases listed with listed | listed
      · rw [listed, List.length_append, length_be64, List.length_take]
        omega
      · rw [listed, List.length_append, length_be64, List.length_replicate]

theorem chain_eq (message : Bytes) :
    chain processBlock message = (blocksOf message).foldl (Fips180.compress K) Fips180.initial :=
  List.foldl_ext processBlock (Fips180.compress K) HashWords.initial
    fun state _ listed => processBlock_eq state (length_of_mem_blocksOf listed)

/-- The end of the message as the standard has it. -/
def paddedEnd (rest : Bytes) (bitLen : UInt64) : List Bytes :=
  if rest.length < 56 then [rest ++ 0x80 :: (List.replicate (55 - rest.length) 0 ++ be64 bitLen)]
  else [rest ++ 0x80 :: List.replicate (63 - rest.length) 0, List.replicate 56 0 ++ be64 bitLen]

theorem toNat_bitLen {message : Bytes} (small : message.length < 2 ^ 61) :
    (UInt64.ofNat message.length * 8).toNat = 8 * message.length := by
  rw [UInt64.toNat_mul, UInt64.toNat_ofNat', Nat.mod_eq_of_lt (by omega : message.length < 2 ^ 64)]
  change message.length * 8 % 2 ^ 64 = 8 * message.length
  omega

theorem blocks_eq {message : Bytes} (small : message.length < 2 ^ 61) :
    Fips180.blocks message =
      wholeBlocks 64 message ++ paddedEnd (leftover 64 message)
      (UInt64.ofNat message.length * 8) := by
  have positive : 0 < 64 := by decide
  have short := length_leftover_lt positive message
  have bits : be 8 (8 * message.length) = be64 (UInt64.ofNat message.length * 8) := by
    rw [be64, toNat_bitLen small]
  unfold Fips180.blocks Fips180.pad paddedEnd
  rw [wholeBlocks_append positive, ← length_leftover positive, bits]
  generalize leftover 64 message = rest at short ⊢
  generalize UInt64.ofNat message.length * 8 = bitLen
  congr 1
  by_cases room : rest.length < 56
  · rw [if_pos room, show (119 - rest.length) % 64 = 55 - rest.length by omega]
    generalize block : rest ++ 0x80 :: (List.replicate (55 - rest.length) 0 ++ be64 bitLen) = last
    have whole : last.length = 64 := by
      rw [← block, List.length_append, List.length_cons, List.length_append,
        List.length_replicate, length_be64]
      omega
    exact wholeBlocks_singleton positive whole
  · have zeros : List.replicate ((119 - rest.length) % 64) (0 : UInt8) =
        List.replicate (63 - rest.length) 0 ++ List.replicate 56 0 := by
      rw [← List.replicate_add]
      congr 1
      omega
    rw [if_neg room, zeros, List.append_assoc, ← List.cons_append, ← List.append_assoc]
    have whole : (rest ++ 0x80 :: List.replicate (63 - rest.length) 0).length = 64 := by
      rw [List.length_append, List.length_cons, List.length_replicate]
      omega
    have ending : (List.replicate 56 0 ++ be64 bitLen).length = 64 := by
      rw [List.length_append, List.length_replicate, length_be64]
    rw [wholeBlocks_cons positive whole, wholeBlocks_singleton positive ending]

/-- The padding is right exactly if it ends in the block that it begins in. -/
theorem blocksOf_eq_iff {message : Bytes} (small : message.length < 2 ^ 61) :
    blocksOf message = Fips180.blocks message ↔ message.length % 64 < 56 := by
  have short := length_leftover_lt (show 0 < 64 by decide) message
  have size := length_leftover (show 0 < 64 by decide) message
  have bits := toNat_bitLen small
  rw [blocks_eq small, blocksOf, List.append_cancel_left_eq, ← size]
  unfold finalBlocks paddedEnd
  by_cases room : (leftover 64 message).length < 56
  · rw [if_pos room, if_pos room]
    exact iff_of_true rfl room
  · -- The last byte of the block is the one of the length, or it is zero or the one of the padding.
    rw [if_neg room, if_neg room]
    refine iff_of_false (fun same => ?_) room
    have block : ((leftover 64 message).take 56 ++ be64 (UInt64.ofNat message.length * 8))[63]? =
        (leftover 64 message ++ 0x80 :: List.replicate
          (63 - (leftover 64 message).length) 0)[63]? := by
      rw [(List.cons.inj same).1]
    have front : ((leftover 64 message).take 56).length = 56 :=
      List.length_take_of_le (Nat.le_of_not_lt room)
    rw [List.getElem?_append_right (by omega), front,
      List.getElem?_append_right (by omega), be64_eq] at block
    have byte : (UInt64.ofNat message.length * 8).toUInt8.toNat = 8 * message.length % 256 := by
      rw [UInt64.toNat_toUInt8, bits]
    by_cases full : (leftover 64 message).length = 63
    · rw [full] at block
      have last := congrArg UInt8.toNat (Option.some.inj block)
      rw [byte] at last
      change _ = 128 at last
      omega
    · obtain ⟨j, more⟩ : ∃ j, 63 - (leftover 64 message).length = j + 1 :=
        ⟨62 - (leftover 64 message).length, by omega⟩
      have zero : (0x80 :: List.replicate (63 - (leftover 64 message).length)
          (0 : UInt8))[63 - (leftover 64 message).length]? =
          some 0 := by
        rw [more, List.getElem?_cons_succ, List.getElem?_replicate, if_pos (Nat.lt_succ_self j)]
      rw [zero] at block
      have last := congrArg UInt8.toNat (Option.some.inj block)
      rw [byte] at last
      change _ = 0 at last
      omega

theorem digest_eq (words : HashWords) : words.digest = Fips180.digest words := by
  have bytes : ∀ word : UInt32, [(word >>> 24).toUInt8, (word >>> 16).toUInt8, (word >>> 8).toUInt8,
      word.toUInt8] = be32 word := by
    intro word
    have byte : ∀ shift : UInt32, (word >>> shift).toUInt8 =
        UInt8.ofNat (word.toNat >>> (shift.toNat % 32)) := by
      intro shift
      apply UInt8.toNat_inj.mp
      rw [UInt32.toNat_toUInt8, UInt32.toNat_shiftRight, UInt8.toNat_ofNat']
    simp only [be32, be, le, List.reverse_cons, List.reverse_nil, List.nil_append, List.cons_append,
      byte, Nat.div_div_eq_div_mul, Nat.shiftRight_eq_div_pow]
    rfl
  unfold HashWords.digest Fips180.digest
  exact congrArg (List.flatMap · words.toList) (funext bytes)

theorem digest_injective : Function.Injective Fips180.digest := by
  intro first second same
  unfold Fips180.digest HashWords.toList at same
  have word : ∀ {x y : UInt32} {left right : Bytes}, be32 x ++ left = be32 y ++ right →
      x = y ∧ left = right := by
    intro x y left right equal
    obtain ⟨front, rest⟩ := List.append_inj equal (by rw [length_be32, length_be32])
    exact ⟨by rw [← be32Of_be32 x, front, be32Of_be32], rest⟩
  simp only [List.flatMap_cons, List.flatMap_nil] at same
  obtain ⟨a, same⟩ := word same
  obtain ⟨b, same⟩ := word same
  obtain ⟨c, same⟩ := word same
  obtain ⟨d, same⟩ := word same
  obtain ⟨e, same⟩ := word same
  obtain ⟨f, same⟩ := word same
  obtain ⟨g, same⟩ := word same
  exact HashWords.ext a b c d e f g (word same).1

/-- However the message comes in pieces, the hasher compresses its own
blocks under its own table. -/
theorem finalize_fresh (buffer : Vector UInt8 64) (pieces : List Bytes) :
    (pieces.foldl update (fresh buffer)).finalize.1 =
      Fips180.digest ((blocksOf pieces.flatten).foldl (Fips180.compress K) Fips180.initial) := by
  have consumed := (@consumed_fresh processBlock buffer).foldl_update pieces
  rw [List.nil_append] at consumed
  rw [← chain_eq, ← digest_eq]
  exact consumed.finalize.2.2

theorem blocksOf_short {message : Bytes} (short : message.length < 56) :
    ∃ block, blocksOf message = [block] := by
  unfold blocksOf finalBlocks
  rw [wholeBlocks_short (by omega), leftover_short (by omega), if_pos short]
  exact ⟨_, rfl⟩

theorem finalize_ne_of_short (buffer : Vector UInt8 64) {pieces : List Bytes}
    (short : pieces.flatten.length < 56) :
    (pieces.foldl update (fresh buffer)).finalize.1 ≠ Fips180.sha256 pieces.flatten := by
  obtain ⟨block, single⟩ := blocksOf_short short
  have padded := (blocksOf_eq_iff (show pieces.flatten.length < 2 ^ 61 by omega)).mpr (by omega)
  rw [finalize_fresh, Fips180.sha256, ← padded, single]
  exact fun same => Fips180.compress_table_ne Fips180.initial block (digest_injective same)

/-- Where the hasher departs from the standard: in the padding of a message that leaves 56 or more
bytes behind its last whole block, and in the compression of every block. A single block cannot make
up for it. -/
theorem finalize_departs (buffer : Vector UInt8 64) (pieces : List Bytes)
    (small : pieces.flatten.length < 2 ^ 61) :
    (pieces.foldl update (fresh buffer)).finalize.1 =
        Fips180.digest ((blocksOf pieces.flatten).foldl (Fips180.compress K) Fips180.initial) ∧
      (blocksOf pieces.flatten = Fips180.blocks pieces.flatten ↔ pieces.flatten.length % 64 < 56) ∧
      (∀ value block, Fips180.compress K value block ≠
        Fips180.compress Fips180.constants value block) ∧
      (pieces.flatten.length < 56 →
        (pieces.foldl update (fresh buffer)).finalize.1 ≠ Fips180.sha256 pieces.flatten) :=
  ⟨finalize_fresh buffer pieces, blocksOf_eq_iff small, Fips180.compress_table_ne,
    finalize_ne_of_short buffer⟩

theorem finalize_departs_abc :
    ([[97], [98, 99]].foldl update (fresh (Vector.replicate 64 0))).finalize.1 ≠
      Fips180.sha256 [[97], [98, 99]].flatten :=
  (finalize_departs (Vector.replicate 64 0) [[97], [98, 99]] (by decide)).2.2.2 (by decide)

end VectorTick.Sha256
