import VectorTick.Common.CrcRemainder

/-! The checksum on every machine: the table with its lazy initialisation, the paths through the
processor's instructions, and the calls that may come before.

The instructions are parameters. They are relied on to take the bytes of a word
one by one, lowest byte first. -/

set_option autoImplicit false

namespace VectorTick.Crc32C

open Foundation

/-- The static members of the class: `table_` and `initialized_`. -/
structure Statics where
  table : UInt8 → UInt32
  initialized : Bool

def Statics.start : Statics := ⟨fun _ => 0, false⟩

def Statics.init (statics : Statics) : Statics :=
  if statics.initialized then statics else ⟨fun index => Crc32C.table index.toUInt32, true⟩

/-- The loop of `compute_sw` over the table as it stands. -/
def Statics.lookup (statics : Statics) (crc : UInt32) (byte : UInt8) : UInt32 :=
  statics.table ((crc ^^^ byte.toUInt32) &&& 0xFF).toUInt8 ^^^ (crc >>> 8)

def Statics.computeSw (statics : Statics) (initCrc : UInt32) (data : Bytes) : UInt32 × Statics :=
  let statics := if statics.initialized then statics else statics.init
  (data.foldl statics.lookup initCrc, statics)

def Statics.shiftZero (statics : Statics) (crc : UInt32) : UInt32 :=
  (crc >>> 8) ^^^ statics.table (crc &&& 0xFF).toUInt8

/-- The table is used as it is found: nothing here fills it. -/
def Statics.combine (statics : Statics) (crcA crcB : UInt32) (lenB : Nat) : UInt32 :=
  if lenB = 0 then crcA else statics.shiftZero^[lenB] crcA ^^^ crcB

/-- What the code makes of the instructions for one, two, four and eight bytes. -/
structure Steps where
  one : UInt32 → UInt8 → UInt32
  two : UInt32 → UInt16 → UInt32
  four : UInt32 → UInt32 → UInt32
  eight : UInt32 → UInt64 → UInt32

namespace Steps

variable (steps : Steps)

def eights (crc : UInt32) (data : Bytes) : UInt32 × Bytes :=
  if 8 ≤ data.length then eights (steps.eight crc (u64Of (data.take 8)))
    (data.drop 8) else (crc, data)
termination_by data.length
decreasing_by rw [List.length_drop]; omega

/-- The shape that `compute_sse42` and `compute_arm` share. -/
def computeSplit (initCrc : UInt32) (data : Bytes) : UInt32 :=
  let (crc, data) := steps.eights initCrc data
  let (crc, data) :=
    if 4 ≤ data.length then (steps.four crc (u32Of (data.take 4)), data.drop 4) else (crc, data)
  let (crc, data) :=
    if 2 ≤ data.length then (steps.two crc (u16Of (data.take 2)), data.drop 2) else (crc, data)
  if 1 ≤ data.length then steps.one crc (data.headD 0) else crc

/-- An instruction on several bytes is as many steps of one byte, and a step of one
byte divides it bit by bit. -/
structure Bytewise : Prop where
  one : ∀ crc byte, steps.one crc byte = remainder crc [byte]
  two : ∀ crc value, steps.two crc value = (u16 value).foldl steps.one crc
  four : ∀ crc value, steps.four crc value = (u32 value).foldl steps.one crc
  eight : ∀ crc value, steps.eight crc value = (u64 value).foldl steps.one crc

end Steps

/-- The intrinsics of SSE 4.2; the one for eight bytes works in a register of 64 bits. -/
structure Sse42 where
  mmCrc32U8 : UInt32 → UInt8 → UInt32
  mmCrc32U16 : UInt32 → UInt16 → UInt32
  mmCrc32U32 : UInt32 → UInt32 → UInt32
  mmCrc32U64 : UInt64 → UInt64 → UInt64

def Sse42.steps (sse42 : Sse42) : Steps :=
  ⟨sse42.mmCrc32U8, sse42.mmCrc32U16, sse42.mmCrc32U32, fun crc value =>
    (sse42.mmCrc32U64 crc.toUInt64 value).toUInt32⟩

def computeSse42 (sse42 : Sse42) (initCrc : UInt32) (data : Bytes) : UInt32 :=
  sse42.steps.computeSplit initCrc data

/-- The intrinsics of ARMv8. -/
structure ArmAcle where
  crc32cb : UInt32 → UInt8 → UInt32
  crc32ch : UInt32 → UInt16 → UInt32
  crc32cw : UInt32 → UInt32 → UInt32
  crc32cd : UInt32 → UInt64 → UInt32

def ArmAcle.steps (arm : ArmAcle) : Steps := ⟨arm.crc32cb, arm.crc32ch, arm.crc32cw, arm.crc32cd⟩

def computeArm (arm : ArmAcle) (initCrc : UInt32) (data : Bytes) : UInt32 :=
  arm.steps.computeSplit initCrc data

/-- What the code is compiled for; on x86 the processor is asked whether it has SSE 4.2. -/
inductive Machine where
  | x86 (cpuid : Bool) (sse42 : Sse42)
  | aarch64 (arm : ArmAcle)
  | other

namespace Machine

def isHwSupported : Machine → Bool
  | x86 cpuid _ => cpuid
  | aarch64 _ => true
  | other => false

def Documented : Machine → Prop
  | x86 _ sse42 => sse42.steps.Bytewise
  | aarch64 arm => arm.steps.Bytewise
  | other => True

def compute (machine : Machine) (statics : Statics) (initCrc : UInt32) (data : Bytes) :
    UInt32 × Statics :=
  if data = [] then (initCrc, statics)
  else
    let acc := initCrc ^^^ 0xFFFFFFFF
    let software := statics.computeSw acc data
    match machine with
    | x86 true sse42 => (computeSse42 sse42 acc data ^^^ 0xFFFFFFFF, statics)
    | aarch64 arm => (computeArm arm acc data ^^^ 0xFFFFFFFF, statics)
    | _ => (software.1 ^^^ 0xFFFFFFFF, software.2)

end Machine

/-- The public functions of the class; `compute` and `compute_hw` without an
initial value start from zero. -/
inductive Call where
  | init
  | isHwSupported
  | compute (initCrc : UInt32) (data : Bytes)
  | combine (crcA crcB : UInt32) (lenB : Nat)

def Machine.call (machine : Machine) (statics : Statics) : Call → Statics
  | .init => statics.init
  | .compute initCrc data => (machine.compute statics initCrc data).2
  | .isHwSupported | .combine _ _ _ => statics

def Machine.after (machine : Machine) (calls : List Call) : Statics :=
  calls.foldl machine.call .start

/-- The table is the one of `init`, or it was never touched. -/
inductive Statics.Consistent : Statics → Prop
  | empty : Consistent .start
  | filled : Consistent Statics.start.init

namespace Statics

theorem Consistent.init {statics : Statics} (consistent : statics.Consistent) :
    statics.init = Statics.start.init := by
  cases consistent with
  | empty => rfl
  | filled => rfl

theorem Consistent.snd_computeSw {statics : Statics} (consistent : statics.Consistent)
    (crc : UInt32) (data : Bytes) :
    (statics.computeSw crc data).2 = Statics.start.init := by
  cases consistent with
  | empty => rfl
  | filled => rfl

theorem toUInt32_low (crc : UInt32) : (crc &&& 0xFF).toUInt8.toUInt32 = crc &&& 0xFF := by
  apply UInt32.toNat_inj.mp
  rw [UInt8.toNat_toUInt32, UInt32.toNat_toUInt8, UInt32.toNat_and]
  exact Nat.mod_eq_of_lt (Nat.lt_of_le_of_lt Nat.and_le_right (by decide))

theorem lookup_init : Statics.start.init.lookup = byteStep := by
  funext crc byte
  change Crc32C.table ((crc ^^^ byte.toUInt32) &&& 0xFF).toUInt8.toUInt32 ^^^ (crc >>> 8) =
    byteStep crc byte
  rw [toUInt32_low]
  rfl

theorem Consistent.fst_computeSw {statics : Statics} (consistent : statics.Consistent)
    (crc : UInt32) (data : Bytes) :
    (statics.computeSw crc data).1 = remainder crc data := by
  have filled : (statics.computeSw crc data).1 = data.foldl Statics.start.init.lookup crc := by
    cases consistent with
    | empty => rfl
    | filled => rfl
  rw [filled, lookup_init, ← computeSw_eq]
  rfl

end Statics

theorem foldl_remainder (crc : UInt32) (data : Bytes) :
    data.foldl (fun crc byte => remainder crc [byte]) crc = remainder crc data := by
  induction data generalizing crc with
  | nil => rfl
  | cons byte rest ih =>
    rw [List.foldl_cons, ih, ← remainder_append]
    rfl

namespace Steps

variable {steps : Steps}

theorem Bytewise.foldl_one (bytewise : steps.Bytewise) (crc : UInt32) (data : Bytes) :
    data.foldl steps.one crc = remainder crc data := by
  rw [show steps.one = fun crc byte => remainder crc [byte] from funext₂ bytewise.one,
    foldl_remainder]

theorem Bytewise.eight_take (bytewise : steps.Bytewise) (crc : UInt32) {data : Bytes}
    (enough : 8 ≤ data.length) :
    remainder (steps.eight crc (u64Of (data.take 8))) (data.drop 8) = remainder crc data := by
  rw [bytewise.eight, bytewise.foldl_one, u64_u64Of (by rw [List.length_take]; omega),
    ← remainder_append, List.take_append_drop]

theorem Bytewise.four_take (bytewise : steps.Bytewise) (crc : UInt32) {data : Bytes}
    (enough : 4 ≤ data.length) :
    remainder (steps.four crc (u32Of (data.take 4))) (data.drop 4) = remainder crc data := by
  rw [bytewise.four, bytewise.foldl_one, u32_u32Of (by rw [List.length_take]; omega),
    ← remainder_append, List.take_append_drop]

theorem Bytewise.two_take (bytewise : steps.Bytewise) (crc : UInt32) {data : Bytes}
    (enough : 2 ≤ data.length) :
    remainder (steps.two crc (u16Of (data.take 2))) (data.drop 2) = remainder crc data := by
  rw [bytewise.two, bytewise.foldl_one, u16_u16Of (by rw [List.length_take]; omega),
    ← remainder_append, List.take_append_drop]

theorem Bytewise.eights_spec (bytewise : steps.Bytewise) (crc : UInt32) (data : Bytes) :
    (steps.eights crc data).2.length < 8 ∧
      remainder (steps.eights crc data).1 (steps.eights crc data).2 = remainder crc data := by
  induction crc, data using Steps.eights.induct steps with
  | case1 crc data enough ih =>
    rw [eights, if_pos enough]
    exact ⟨ih.1, ih.2.trans (bytewise.eight_take crc enough)⟩
  | case2 crc data short =>
    rw [eights, if_neg short]
    exact ⟨Nat.lt_of_not_le short, rfl⟩

theorem Bytewise.computeSplit_eq (bytewise : steps.Bytewise) (crc : UInt32) (data : Bytes) :
    steps.computeSplit crc data = remainder crc data := by
  obtain ⟨short, same⟩ := bytewise.eights_spec crc data
  rw [← same]
  unfold computeSplit
  generalize steps.eights crc data = state at short ⊢
  obtain ⟨crc, data⟩ := state
  have fours : ∃ crc' data',
      (if 4 ≤ data.length then
      (steps.four crc (u32Of (data.take 4)), data.drop 4) else (crc, data)) =
      (crc', data') ∧ data'.length < 4 ∧ remainder crc' data' = remainder crc data := by
    by_cases enough : 4 ≤ data.length
    · exact ⟨_, _, if_pos
        enough, by rw [List.length_drop]; dsimp only at short; omega, bytewise.four_take crc enough⟩
    · exact ⟨_, _, if_neg enough, Nat.lt_of_not_le enough, rfl⟩
  obtain ⟨crc', data', taken, short', same'⟩ := fours
  have twos : ∃ crc'' data'', (if 2 ≤ data'.length then
      (steps.two crc' (u16Of (data'.take 2)), data'.drop 2) else (crc', data')) =
      (crc'', data'') ∧ data''.length < 2 ∧ remainder crc'' data'' = remainder crc' data' := by
    by_cases enough : 2 ≤ data'.length
    · exact ⟨_, _, if_pos enough, by rw [List.length_drop]; omega, bytewise.two_take crc' enough⟩
    · exact ⟨_, _, if_neg enough, Nat.lt_of_not_le enough, rfl⟩
  obtain ⟨crc'', data'', taken', short'', same''⟩ := twos
  simp only [taken, taken']
  rw [← same', ← same'']
  cases data'' with
  | nil => rfl
  | cons byte rest =>
    cases rest with
    | nil => exact bytewise.one crc'' byte
    | cons _ _ =>
      rw [List.length_cons, List.length_cons] at short''
      omega

end Steps

namespace Machine

variable {machine : Machine} {statics : Statics}

theorem compute_cases (documented : machine.Documented) (initCrc : UInt32)
    {data : Bytes} (some : data ≠ []) :
    (machine.isHwSupported = true ∧
      machine.compute statics initCrc data =
        (remainder (initCrc ^^^ 0xFFFFFFFF) data ^^^ 0xFFFFFFFF, statics)) ∨
    (machine.isHwSupported = false ∧
      machine.compute statics initCrc data =
        ((statics.computeSw (initCrc ^^^ 0xFFFFFFFF) data).1 ^^^ 0xFFFFFFFF,
          (statics.computeSw (initCrc ^^^ 0xFFFFFFFF) data).2)) := by
  unfold compute
  rw [if_neg some]
  cases machine with
  | x86 cpuid sse42 =>
    cases cpuid with
    | true =>
      refine .inl ⟨rfl, ?_⟩
      rw [← Steps.Bytewise.computeSplit_eq documented]
      rfl
    | false => exact .inr ⟨rfl, rfl⟩
  | aarch64 arm =>
    refine .inl ⟨rfl, ?_⟩
    rw [← Steps.Bytewise.computeSplit_eq documented]
    rfl
  | other => exact .inr ⟨rfl, rfl⟩

theorem fst_compute (documented : machine.Documented) (consistent : statics.Consistent)
    (initCrc : UInt32) (data : Bytes) :
    (machine.compute statics initCrc data).1 = computeFrom initCrc data := by
  by_cases empty : data = []
  · unfold compute computeFrom
    rw [if_pos empty, if_pos empty]
  · rw [computeFrom_eq]
    rcases compute_cases documented initCrc empty with ⟨_, same⟩ | ⟨_, same⟩
    · rw [same]
    · rw [same, consistent.fst_computeSw]

theorem snd_compute_software (documented : machine.Documented)
    (consistent : statics.Consistent) (initCrc : UInt32)
    {data : Bytes} (some : data ≠ []) (software : machine.isHwSupported = false) :
    (machine.compute statics initCrc data).2 = Statics.start.init := by
  rcases compute_cases documented initCrc some with ⟨hardware, _⟩ | ⟨_, same⟩
  · rw [software] at hardware
    cases hardware
  · rw [same]
    exact consistent.snd_computeSw (initCrc ^^^ 0xFFFFFFFF) data

theorem snd_compute_hardware (documented : machine.Documented) (initCrc : UInt32) (data : Bytes)
    (hardware : machine.isHwSupported = true) :
    (machine.compute statics initCrc data).2 = statics := by
  by_cases empty : data = []
  · unfold compute
    rw [if_pos empty]
  · rcases compute_cases documented initCrc empty with ⟨_, same⟩ | ⟨software, _⟩
    · rw [same]
    · rw [hardware] at software
      cases software

theorem consistent_compute (documented : machine.Documented)
    (consistent : statics.Consistent) (initCrc : UInt32)
    (data : Bytes) : (machine.compute statics initCrc data).2.Consistent := by
  cases supported : machine.isHwSupported with
  | true =>
    rw [snd_compute_hardware documented initCrc data supported]
    exact consistent
  | false =>
    by_cases empty : data = []
    · unfold compute
      rw [if_pos empty]
      exact consistent
    · rw [snd_compute_software documented consistent initCrc empty supported]
      exact .filled

theorem consistent_call (documented : machine.Documented)
    (consistent : statics.Consistent) (call : Call) :
    (machine.call statics call).Consistent := by
  cases call with
  | init =>
    change statics.init.Consistent
    rw [consistent.init]
    exact .filled
  | isHwSupported => exact consistent
  | compute initCrc data => exact consistent_compute documented consistent initCrc data
  | combine crcA crcB lenB => exact consistent

theorem consistent_foldl (documented : machine.Documented) (calls : List Call)
    (consistent : statics.Consistent) :
    (calls.foldl machine.call statics).Consistent := by
  induction calls generalizing statics with
  | nil => exact consistent
  | cons call rest ih => exact ih (consistent_call documented consistent call)

theorem consistent_after (documented : machine.Documented) (calls : List Call) :
    (machine.after calls).Consistent :=
  consistent_foldl documented calls .empty

end Machine

theorem computeFrom_append (initCrc : UInt32) (first second : Bytes) :
    computeFrom (computeFrom initCrc first) second = computeFrom initCrc (first ++ second) := by
  rw [computeFrom_eq initCrc first, computeFrom_eq _ second, computeFrom_eq initCrc,
    remainder_append, UInt32.xor_assoc, UInt32.xor_self, UInt32.xor_zero]

/-- Every path divides, whatever was called before; what is around it lets the
data be given in two pieces. -/
theorem compute_agrees (machine : Machine) (documented : machine.Documented)
    (calls : List Call) (initCrc : UInt32) :
    (∀ data, ((machine.after calls).computeSw initCrc data).1 = remainder initCrc data) ∧
    (∀ cpuid sse42, machine = .x86 cpuid sse42 →
      ∀ data, computeSse42 sse42 initCrc data = remainder initCrc data) ∧
    (∀ arm, machine = .aarch64 arm → ∀ data, computeArm arm initCrc data = remainder initCrc data) ∧
    (∀ data, (machine.compute (machine.after calls) initCrc data).1 =
      remainder (initCrc ^^^ 0xFFFFFFFF) data ^^^ 0xFFFFFFFF) ∧
    ∀ first second, (machine.compute (machine.compute (machine.after calls) initCrc first).2
        (machine.compute (machine.after calls) initCrc first).1 second).1 =
      (machine.compute (machine.after calls) initCrc (first ++ second)).1 := by
  have consistent := Machine.consistent_after documented calls
  refine ⟨fun data => consistent.fst_computeSw initCrc data, ?_, ?_, ?_, ?_⟩
  · intro cpuid sse42 same data
    rw [same] at documented
    exact Steps.Bytewise.computeSplit_eq documented initCrc data
  · intro arm same data
    rw [same] at documented
    exact Steps.Bytewise.computeSplit_eq documented initCrc data
  · intro data
    rw [Machine.fst_compute documented consistent, computeFrom_eq]
  · intro first second
    rw [Machine.fst_compute documented
      (Machine.consistent_compute documented consistent initCrc first),
      Machine.fst_compute documented consistent,
        Machine.fst_compute documented consistent, computeFrom_append]

def dividingSse42 : Sse42 where
  mmCrc32U8 crc byte := remainder crc [byte]
  mmCrc32U16 crc value := remainder crc (u16 value)
  mmCrc32U32 crc value := remainder crc (u32 value)
  mmCrc32U64 crc value := (remainder crc.toUInt32 (u64 value)).toUInt64

theorem dividingSse42_bytewise : dividingSse42.steps.Bytewise where
  one _ _ := rfl
  two crc value := (foldl_remainder crc (u16 value)).symm
  four crc value := (foldl_remainder crc (u32 value)).symm
  eight crc value := by
    change (remainder crc.toUInt64.toUInt32 (u64 value)).toUInt64.toUInt32 = _
    rw [UInt32.toUInt32_toUInt64, UInt32.toUInt32_toUInt64]
    exact (foldl_remainder crc (u64 value)).symm

def dividing : Machine := .x86 true dividingSse42

theorem compute_agrees_on_sse42 :
    computeSse42 dividingSse42 7 [1, 2, 3] = remainder 7 [1, 2, 3] ∧
      (dividing.compute (dividing.after [.isHwSupported]) 7 [1, 2, 3]).1 =
        remainder (7 ^^^ 0xFFFFFFFF) [1, 2, 3] ^^^ 0xFFFFFFFF :=
  have agrees := compute_agrees dividing dividingSse42_bytewise [.isHwSupported] 7
  ⟨agrees.2.1 true dividingSse42 rfl [1, 2, 3], agrees.2.2.2.1 [1, 2, 3]⟩

theorem toBitVec_iterate_shiftZero (count : Nat) (crc : UInt32) :
    (Statics.start.init.shiftZero^[count] crc).toBitVec = shiftBits^[8 * count] crc.toBitVec := by
  have once : ∀ crc, (Statics.start.init.shiftZero crc).toBitVec = shiftBits^[8] crc.toBitVec := by
    intro crc
    have zero : Statics.start.init.shiftZero crc = byteStep crc 0 := by
      rw [← Statics.lookup_init]
      unfold Statics.shiftZero Statics.lookup
      rw [UInt32.xor_comm, show (0 : UInt8).toUInt32 = 0 from rfl, UInt32.xor_zero]
    rw [zero, byteStep_eq, show (0 : UInt8).toUInt32 = 0 from rfl, UInt32.xor_zero, toBitVec_table]
  induction count generalizing crc with
  | zero => rfl
  | succ count ih =>
    rw [Function.iterate_succ_apply, ih, once, ← Function.iterate_add_apply, Nat.mul_succ]

theorem toBitVec_iterate_shiftZero_start (count : Nat) (crc : UInt32) :
    (Statics.start.shiftZero^[count] crc).toBitVec = crc.toBitVec >>> (8 * count) := by
  have once : ∀ crc : UInt32, (Statics.start.shiftZero crc).toBitVec = crc.toBitVec >>> 8 := by
    intro crc
    change (crc >>> 8 ^^^ 0).toBitVec = _
    rw [UInt32.xor_zero]
    rfl
  induction count generalizing crc with
  | zero => simp
  | succ count ih =>
    rw [Function.iterate_succ_apply, ih, once, ← BitVec.shiftRight_add,
    Nat.mul_succ, Nat.add_comm 8]

theorem toBitVec_compute_append (first second : Bytes) :
    (compute (first ++ second)).toBitVec =
      shiftBits^[8 * second.length] (compute first).toBitVec ^^^ (compute second).toBitVec := by
  have register : remainder (0 ^^^ 0xFFFFFFFF) first = 0xFFFFFFFF ^^^ compute first := by
    rw [compute, computeFrom_eq, UInt32.xor_comm 0xFFFFFFFF, UInt32.xor_assoc,
      UInt32.xor_self, UInt32.xor_zero]
  rw [compute, computeFrom_eq, remainder_append, register, compute, compute,
    computeFrom_eq 0 second]
  unfold remainder
  rw [UInt32.toBitVec_xor, UInt32.toBitVec_xor, toBitVec_foldl_bitStep, toBitVec_foldl_bitStep,
    UInt32.toBitVec_xor, castagnoli.foldl_feed_added, length_bits, UInt32.zero_xor]
  change _ ^^^ shiftBits^[_] _ ^^^ _ = _
  rw [BitVec.xor_comm (List.foldl _ _ _), BitVec.xor_assoc]

theorem iterate_eq_shift_iff (count : Nat) (crc : BitVec 32) :
    shiftBits^[count] crc = crc >>> count ↔ ∀ i < count, crc.getLsbD i = false := by
  refine ⟨fun same i inside => ?_, iterate_high⟩
  have high : ∀ j < count, ((crc >>> count) <<< count).getLsbD j = false := by
    intro j below
    rw [BitVec.getLsbD_shiftLeft, decide_eq_true below]
    simp
  have again : ((crc >>> count) <<< count) >>> count = crc >>> count := by
    apply BitVec.eq_of_getLsbD_eq
    intro j there
    rw [BitVec.getLsbD_ushiftRight, BitVec.getLsbD_shiftLeft]
    by_cases room : count + j < 32
    · simp [room]
    · rw [decide_eq_false room, Bool.false_and, Bool.false_and, BitVec.getLsbD_ushiftRight,
        BitVec.getLsbD_of_ge crc _ (Nat.le_of_not_lt room)]
  have low : shiftBits^[count] (crc ^^^ (crc >>> count) <<< count) = 0#32 := by
    rw [iterate_xor, iterate_high high, again, same, BitVec.xor_self]
  rw [BitVec.xor_eq_zero_iff.mp (iterate_eq_zero low)]
  exact high i inside

theorem Statics.combine_init (first second : Bytes) :
    Statics.start.init.combine (compute first) (compute second) second.length =
      compute (first ++ second) := by
  unfold combine
  by_cases empty : second.length = 0
  · rw [if_pos empty, List.length_eq_zero_iff.mp empty, List.append_nil]
  · rw [if_neg empty]
    apply UInt32.toBitVec_inj.mp
    rw [UInt32.toBitVec_xor, toBitVec_iterate_shiftZero, toBitVec_compute_append]

theorem Statics.combine_start_iff (first second : Bytes) :
    Statics.start.combine (compute first) (compute second) second.length =
      compute (first ++ second) ↔
      ∀ i < 8 * second.length, (compute first).toBitVec.getLsbD i = false := by
  unfold combine
  by_cases empty : second.length = 0
  · rw [if_pos empty, List.length_eq_zero_iff.mp empty, List.append_nil]
    simp
  · rw [if_neg empty, ← UInt32.toBitVec_inj, UInt32.toBitVec_xor, toBitVec_iterate_shiftZero_start,
      toBitVec_compute_append, ← iterate_eq_shift_iff]
    refine ⟨fun same => ?_, fun same => by rw [same]⟩
    have undone := congrArg (· ^^^ (compute second).toBitVec) same
    simpa [BitVec.xor_assoc] using undone.symm

/-- Where there are instructions only `init` fills the table. -/
theorem Machine.foldl_call_hardware {machine : Machine} (documented : machine.Documented)
    (hardware : machine.isHwSupported = true) (calls : List Call) {statics : Statics}
    (consistent : statics.Consistent) :
    (.init ∈ calls → calls.foldl machine.call statics = Statics.start.init) ∧
      (.init ∉ calls → calls.foldl machine.call statics = statics) := by
  induction calls generalizing statics with
  | nil => exact ⟨fun listed => absurd listed List.not_mem_nil, fun _ => rfl⟩
  | cons call rest ih =>
    have next := ih (consistent_call documented consistent call)
    rw [List.foldl_cons, List.mem_cons]
    by_cases later : Call.init ∈ rest
    · exact ⟨fun _ => next.1 later, fun none => absurd (Or.inr later) none⟩
    · rw [next.2 later]
      cases call with
      | init => exact ⟨fun _ => consistent.init, fun none => absurd (Or.inl rfl) none⟩
      | isHwSupported => simp [later, Machine.call]
      | compute initCrc data =>
        simp [later, Machine.call, snd_compute_hardware documented initCrc data hardware]
      | combine crcA crcB lenB => simp [later, Machine.call]

/-- The checksums of two pieces give the one of both, unless the table was never
filled: on a machine with instructions nothing but `init` fills it. Without it, what
`combine` shifts out must be zeros. -/
theorem combine_iff (machine : Machine) (documented : machine.Documented) (calls : List Call)
    (first second : Bytes) :
    (machine.compute (machine.compute (machine.after calls) 0 first).2 0 second).2.combine
        (machine.compute (machine.after calls) 0 first).1
        (machine.compute (machine.compute (machine.after calls) 0 first).2 0 second).1
          second.length =
      (machine.compute (machine.after calls) 0 (first ++ second)).1 ↔
    (machine.isHwSupported = true →
      .init ∈ calls ∨ ∀ i < 8 * second.length, (compute first).toBitVec.getLsbD i = false) := by
  have before := Machine.consistent_after documented calls
  have between := Machine.consistent_compute documented before 0 first
  rw [Machine.fst_compute documented before, Machine.fst_compute documented before,
    Machine.fst_compute documented between]
  change Statics.combine _ (compute first) (compute second) _ = compute (first ++ second) ↔ _
  cases supported : machine.isHwSupported with
  | false =>
    refine iff_of_true ?_ fun hardware => Bool.noConfusion hardware
    by_cases empty : second = []
    · rw [empty, List.append_nil]
      rfl
    · rw [Machine.snd_compute_software documented between 0 empty supported, Statics.combine_init]
  | true =>
    rw [Machine.snd_compute_hardware documented 0 second supported,
      Machine.snd_compute_hardware documented 0 first supported, imp_iff_right rfl]
    have history := Machine.foldl_call_hardware documented supported calls .empty
    unfold Machine.after
    by_cases filled : Call.init ∈ calls
    · rw [history.1 filled]
      exact iff_of_true (Statics.combine_init first second) (.inl filled)
    · rw [history.2 filled, or_iff_right filled]
      exact Statics.combine_start_iff first second

theorem combine_iff_after_init :
    (dividing.compute (dividing.compute (dividing.after [.init]) 0 [1]).2 0 [2]).2.combine
        (dividing.compute (dividing.after [.init]) 0 [1]).1
        (dividing.compute (dividing.compute (dividing.after [.init]) 0 [1]).2 0 [2]).1 1 =
      (dividing.compute (dividing.after [.init]) 0 [1, 2]).1 :=
  (combine_iff dividing dividingSse42_bytewise [.init] [1] [2]).mpr fun _ =>
    .inl (List.mem_singleton.mpr rfl)

/-- Nothing was called before on a processor with SSE 4.2: the table is empty. -/
theorem combine_empty_table :
    (dividing.compute (dividing.compute (dividing.after []) 0 [1]).2 0 [2]).2.combine
        (dividing.compute (dividing.after []) 0 [1]).1
        (dividing.compute (dividing.compute (dividing.after []) 0 [1]).2 0 [2]).1 1 ≠
      (dividing.compute (dividing.after []) 0 [1, 2]).1 := by
  have documented : dividing.Documented := dividingSse42_bytewise
  have untouched : (dividing.compute (dividing.compute (dividing.after []) 0 [1]).2 0 [2]).2 =
      .start := by
    rw [Machine.snd_compute_hardware documented 0 [2] rfl,
      Machine.snd_compute_hardware documented 0 [1] rfl]
    rfl
  have between := Machine.consistent_compute documented .empty 0 [1]
  rw [untouched, show dividing.after [] = Statics.start from rfl,
    Machine.fst_compute documented .empty, Machine.fst_compute documented .empty,
    Machine.fst_compute documented between]
  decide

end VectorTick.Crc32C
