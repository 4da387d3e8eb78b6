import VectorTick.Storage.JournalLog

/-! The bytes the journal reader touches.

A record's checksum only says that the record is as it was written. The lengths inside a payload are
not compared with the size of the payload, so what is read for a record is as long as its own length
fields make it.
-/

set_option autoImplicit false

namespace VectorTick.Journal

open Foundation Vts1

/-- A read of `count` bytes from `start` on. -/
structure Access where
  start : Nat
  count : Nat
  deriving DecidableEq, Repr

def Access.Within (access : Access) (low high : Nat) : Prop :=
  low ≤ access.start ∧ access.start + access.count ≤ high

def accessesFrom : Nat → List Nat → List Access
  | _, [] => []
  | start, count :: rest => ⟨start, count⟩ :: accessesFrom (start + count) rest

theorem accessesFrom_within {start high : Nat} (room : start ≤ high) (counts : List Nat) :
    (∀ access ∈ accessesFrom start counts, access.Within start high) ↔
      start + counts.sum ≤ high := by
  have shifted : ∀ low, low ≤ start →
      ((∀ access ∈ accessesFrom start counts, access.Within low high) ↔
        start + counts.sum ≤ high) := by
    induction counts generalizing start with
    | nil => simp [accessesFrom, room]
    | cons count counts ih =>
      intro low below
      simp only [accessesFrom, List.forall_mem_cons, List.sum_cons]
      constructor
      · rintro ⟨first, rest⟩
        have fits : start + count ≤ high := first.2
        have last := (ih fits low (by omega)).mp rest
        omega
      · intro fits
        refine ⟨⟨below, by dsimp only; omega⟩, ?_⟩
        exact (ih (by omega) low (by omega)).mpr (by omega)
  exact shifted start (Nat.le_refl start)

section Reads

variable (buffer : Bytes)

def word32 (offset : Nat) : Nat := leValue (slice buffer offset 4)

/-- The fields of a segment entry: id, length of the name, name, six
words, two half words, two flags. -/
def metaFields (offset : Nat) : List Nat :=
  [8, 4, word32 buffer (offset + 8), 8, 8, 8, 8, 8, 8, 4, 4, 1, 1]

def metaSize (offset : Nat) : Nat := 70 + word32 buffer (offset + 8)

def metasFields : Nat → Nat → List Nat
  | 0, _ => []
  | left + 1, offset =>
    metaFields buffer offset ++ metasFields left (offset + metaSize buffer offset)

def metasSize : Nat → Nat → Nat
  | 0, _ => 0
  | left + 1, offset => metaSize buffer offset + metasSize left (offset + metaSize buffer offset)

/-- Where the entries of a compaction start: behind the two counts and the old ids. -/
def newMetas (offset : Nat) : Nat := offset + 4 + 8 * word32 buffer offset

/-- The fields read from a payload at `offset`, by the type of the record. -/
def payloadFields (type : UInt32) (offset : Nat) : List Nat :=
  if type = 2 then metaFields buffer offset
  else if type = 3 then [8]
  else if type = 4 then
    4 :: List.replicate (word32 buffer offset) 8 ++
      4 :: metasFields buffer (word32 buffer (newMetas buffer offset)) (newMetas buffer offset + 4)
  else []

def payloadNeeds (type : UInt32) (offset : Nat) : Nat :=
  if type = 2 then metaSize buffer offset
  else if type = 3 then 8
  else if type = 4 then
    8 + 8 * word32 buffer offset +
      metasSize buffer (word32 buffer (newMetas buffer offset)) (newMetas buffer offset + 4)
  else 0

/-- A read, and the payload it is a field of, if it is one. -/
structure Read where
  access : Access
  payload : Option (Nat × Nat)

def recordType (offset : Nat) : UInt32 := u32Of (slice buffer (offset + 8) 4)

def recordSize (offset : Nat) : Nat := word32 buffer (offset + 12)

def checksumHolds (offset : Nat) : Bool :=
  u32Of (slice buffer (offset + 16 + recordSize buffer offset) 4) =
    Crc32C.compute (slice buffer offset (checkedSize (recordSize buffer offset)))

def payloadReads (offset : Nat) : List Read :=
  (accessesFrom (offset + 16)
    (payloadFields buffer (recordType buffer offset) (offset + 16))).map fun access =>
    ⟨access, some (offset + 16, offset + 16 + recordSize buffer offset)⟩

/-- The loop of `read_all`, as the reads it makes. -/
def loopReads : Nat → Nat → List Read
  | 0, _ => []
  | fuel + 1, offset =>
    if offset + 20 ≤ buffer.length then
      let size := recordSize buffer offset
      -- The transaction id, the type and the size of the payload.
      (accessesFrom offset [8, 4, 4]).map (⟨·, none⟩) ++
        if offset + 16 + size + 4 > buffer.length then []
        else
          -- The stored checksum, and everything it is computed from.
          ⟨⟨offset + 16 + size, 4⟩, none⟩ :: ⟨⟨offset, checkedSize size⟩, none⟩ ::
            if checksumHolds buffer offset then
              payloadReads buffer offset ++ loopReads fuel (offset + 20 + size)
            else []
    else []

def readAllReads : List Read :=
  if buffer.length < JournalHeader.size then []
  else
    ⟨⟨0, JournalHeader.size⟩, none⟩ ::
      if u32Of (slice buffer 0 4) ≠ JournalHeader.magic then
        [] else loopReads buffer buffer.length JournalHeader.size

/-- Every read is inside the file, and that of a payload field inside its payload. -/
def ReadsInside : Prop :=
  ∀ read ∈ readAllReads buffer, read.access.Within 0 buffer.length ∧
    ∀ low high, read.payload = some (low, high) → read.access.Within low high

/-- The records that are complete and whose checksum holds, up to the first that is not. -/
def acceptedFrom : Nat → Nat → List Nat
  | 0, _ => []
  | fuel + 1, offset =>
    if offset + 20 ≤ buffer.length ∧ offset + 20 + recordSize buffer offset ≤ buffer.length ∧
        checksumHolds buffer offset then
      offset :: acceptedFrom fuel (offset + 20 + recordSize buffer offset)
    else []

def acceptedRecords : List Nat :=
  if buffer.length < JournalHeader.size ∨ u32Of (slice buffer 0 4) ≠ JournalHeader.magic then []
  else acceptedFrom buffer buffer.length JournalHeader.size

/-- Every accepted record has a payload as large as its own counts and lengths make it. -/
def WellSized : Prop :=
  ∀ offset ∈ acceptedRecords buffer,
    payloadNeeds buffer (recordType buffer offset) (offset + 16) ≤ recordSize buffer offset

theorem sum_metaFields (offset : Nat) :
    (metaFields buffer offset).sum = metaSize buffer offset := by
  simp only [metaFields, metaSize, List.sum_cons, List.sum_nil]
  omega

theorem sum_metasFields (left offset : Nat) :
    (metasFields buffer left offset).sum = metasSize buffer left offset := by
  induction left generalizing offset with
  | zero => rfl
  | succ left ih => rw [metasFields, List.sum_append, sum_metaFields, ih, metasSize]

theorem sum_payloadFields (type : UInt32) (offset : Nat) :
    (payloadFields buffer type offset).sum = payloadNeeds buffer type offset := by
  unfold payloadFields payloadNeeds
  split
  · exact sum_metaFields buffer offset
  split
  · rfl
  split
  · rw [List.sum_append, List.sum_cons, List.sum_cons, sum_metasFields, List.sum_replicate]
    simp only [smul_eq_mul]
    omega
  · rfl

theorem payloadReads_inside {offset : Nat}
    (whole : offset + 20 + recordSize buffer offset ≤ buffer.length) :
    (∀ read ∈ payloadReads buffer offset, read.access.Within 0 buffer.length ∧
      ∀ low high, read.payload = some (low, high) → read.access.Within low high) ↔
      payloadNeeds buffer (recordType buffer offset) (offset + 16) ≤ recordSize buffer offset := by
  have room : offset + 16 ≤ offset + 16 + recordSize buffer offset := Nat.le_add_right _ _
  have fields :=
    accessesFrom_within room (payloadFields buffer (recordType buffer offset) (offset + 16))
  rw [sum_payloadFields, Nat.add_le_add_iff_left] at fields
  rw [← fields]
  unfold payloadReads
  simp only [List.forall_mem_map, Option.some.injEq, Prod.mk.injEq]
  refine forall₂_congr fun access _ => ?_
  constructor
  · rintro ⟨_, own⟩
    exact own _ _ ⟨rfl, rfl⟩
  · intro own
    refine ⟨⟨Nat.zero_le _, ?_⟩, ?_⟩
    · have last := own.2
      omega
    · rintro low high ⟨rfl, rfl⟩
      exact own

theorem loopReads_inside (fuel offset : Nat) :
    (∀ read ∈ loopReads buffer fuel offset, read.access.Within 0 buffer.length ∧
      ∀ low high, read.payload = some (low, high) → read.access.Within low high) ↔
      ∀ record ∈ acceptedFrom buffer fuel offset,
        payloadNeeds buffer (recordType buffer record) (record + 16) ≤
          recordSize buffer record := by
  induction fuel generalizing offset with
  | zero => simp [loopReads, acceptedFrom]
  | succ fuel ih =>
    unfold loopReads acceptedFrom
    by_cases header : offset + 20 ≤ buffer.length
    · rw [if_pos header]
      have front : ∀ read ∈ (accessesFrom offset [8, 4, 4]).map (⟨·, none⟩ : Access → Read),
          read.access.Within 0 buffer.length ∧
            ∀ low high, read.payload = some (low, high) → read.access.Within low high := by
        intro read listed
        simp only [accessesFrom, List.map_cons, List.map_nil, List.mem_cons,
          List.not_mem_nil, or_false] at listed
        rcases listed with rfl | rfl | rfl
        all_goals
          refine ⟨⟨Nat.zero_le _, by dsimp only; omega⟩, ?_⟩
          intro low high never
          cases never
      dsimp only
      rw [List.forall_mem_append, and_iff_right front]
      by_cases whole : offset + 20 + recordSize buffer offset ≤ buffer.length
      · rw [if_neg (by omega)]
        have stored : (⟨⟨offset + 16 + recordSize buffer offset, 4⟩, none⟩ : Read).access.Within 0
            buffer.length :=
          ⟨Nat.zero_le _, by dsimp only; omega⟩
        have wrapped : checkedSize (recordSize buffer offset) ≤ 16 + recordSize buffer offset :=
          Nat.mod_le _ _
        have body : (⟨⟨offset, checkedSize (recordSize buffer offset)⟩, none⟩ : Read).access.Within
            0 buffer.length :=
          ⟨Nat.zero_le _, by dsimp only; omega⟩
        simp only [List.forall_mem_cons, stored, body, true_and, reduceCtorEq,
          false_implies, implies_true]
        by_cases holds : checksumHolds buffer offset = true
        · rw [if_pos holds, if_pos ⟨header, whole, holds⟩, List.forall_mem_append,
            List.forall_mem_cons, payloadReads_inside buffer whole, ih]
        · rw [if_neg holds, if_neg fun accepted => holds accepted.2.2]
          simp
      · rw [if_pos (by omega), if_neg fun accepted => whole accepted.2.1]
        simp
    · rw [if_neg header, if_neg fun accepted => header accepted.1]
      simp

/-- The reader stays inside the file and each record inside its payload, exactly when every accepted
record is as large as its own counts and lengths say. -/
theorem reads_inside_iff : ReadsInside buffer ↔ WellSized buffer := by
  unfold ReadsInside WellSized readAllReads acceptedRecords
  by_cases short : buffer.length < JournalHeader.size
  · rw [if_pos short, if_pos (.inl short)]
    simp
  · rw [if_neg short]
    have header : (⟨⟨0, JournalHeader.size⟩, none⟩ : Read).access.Within 0 buffer.length :=
      ⟨Nat.zero_le _, by dsimp only; omega⟩
    simp only [List.forall_mem_cons, header, true_and, reduceCtorEq, false_implies, implies_true]
    by_cases magic : u32Of (slice buffer 0 4) ≠ JournalHeader.magic
    · rw [if_pos magic, if_pos (.inr magic)]
      simp
    · rw [if_neg magic, if_neg (by rintro (less | other); exacts [short less, magic other])]
      exact loopReads_inside buffer _ _

theorem slice_drop (first offset count : Nat) :
    slice (buffer.drop first) offset count = slice buffer (first + offset) count := by
  rw [slice, slice, List.drop_drop]

theorem declaredSize_drop (offset : Nat) :
    declaredSize (buffer.drop offset) = recordSize buffer offset := by
  rw [declaredSize, slice_drop, recordSize, word32]

theorem accepts_drop (offset : Nat) :
    accepts (buffer.drop offset) = true ↔
      offset + 20 ≤ buffer.length ∧ offset + 20 + recordSize buffer offset ≤ buffer.length ∧
        checksumHolds buffer offset = true := by
  unfold accepts checksumHolds
  rw [declaredSize_drop, slice_drop, List.length_drop, ← Nat.add_assoc]
  simp only [Bool.and_eq_true, decide_eq_true_eq]
  rw [show (buffer.drop offset).take (checkedSize (recordSize buffer offset)) =
    slice buffer offset (checkedSize (recordSize buffer offset)) from rfl]
  constructor
  · rintro ⟨⟨header, whole⟩, holds⟩
    exact ⟨by omega, by omega, holds⟩
  · rintro ⟨header, whole, holds⟩
    exact ⟨⟨by omega, by omega⟩, holds⟩

variable {buffer}

theorem toNat_word32 (offset : Nat) :
    (u32Of (slice buffer offset 4)).toNat = word32 buffer offset := by
  have below := leValue_lt (slice buffer offset 4)
  have short : (slice buffer offset 4).length ≤ 4 := List.length_take_le _ _
  have bound : leValue (slice buffer offset 4) < 2 ^ 32 :=
    lt_of_lt_of_le below (Nat.pow_le_pow_right (by omega : 256 > 0) short)
  rw [u32Of, word32, UInt32.toNat_ofNat_of_lt' bound]

theorem readMeta_drop {offset : Nat} (inside : offset + metaSize buffer offset ≤ buffer.length) :
    ∃ entry, readMeta (buffer.drop offset) =
      .ok (entry, buffer.drop (offset + metaSize buffer offset)) := by
  unfold metaSize at inside ⊢
  unfold readMeta
  rw [Cursor.bind_ok (Cursor.u64_drop _ (by omega)), Cursor.bind_ok (Cursor.u32_drop _ (by omega)),
    toNat_word32, Cursor.bind_ok (Cursor.bytes_drop _ (by omega))]
  have reached : offset + 8 + 4 + word32 buffer (offset + 8) + 58 =
      offset + (70 + word32 buffer (offset + 8)) := by omega
  rw [← reached]
  exact SegmentMeta.readTail_drop _ _ (by omega)

theorem readMetas_drop {left offset : Nat}
    (inside : offset + metasSize buffer left offset ≤ buffer.length) :
    ∃ entries, readMetas left (buffer.drop offset) =
      .ok (entries, buffer.drop (offset + metasSize buffer left offset)) := by
  induction left generalizing offset with
  | zero => exact ⟨[], rfl⟩
  | succ left ih =>
    rw [metasSize, ← Nat.add_assoc] at inside ⊢
    obtain ⟨entry, first⟩ :=
      readMeta_drop (by omega : offset + metaSize buffer offset ≤ buffer.length)
    obtain ⟨entries, rest⟩ := ih inside
    rw [readMetas, Cursor.bind_ok first, Cursor.bind_ok rest]
    exact ⟨_, rfl⟩

theorem readIds_drop {left offset : Nat} (inside : offset + 8 * left ≤ buffer.length) :
    ∃ ids, readIds left (buffer.drop offset) = .ok (ids, buffer.drop (offset + 8 * left)) := by
  induction left generalizing offset with
  | zero => exact ⟨[], rfl⟩
  | succ left ih =>
    obtain ⟨ids, rest⟩ := @ih (offset + 8) (by omega)
    rw [readIds, Cursor.bind_ok (Cursor.u64_drop _ (by omega)), Cursor.bind_ok rest,
      show offset + 8 + 8 * left = offset + 8 * (left + 1) by omega]
    exact ⟨_, rfl⟩

theorem readOp_drop {type : UInt32} {offset : Nat}
    (inside : offset + payloadNeeds buffer type offset ≤ buffer.length) :
    ∃ update, readOp type (buffer.drop offset) = .ok update := by
  unfold payloadNeeds at inside
  unfold readOp
  by_cases commit : type = 5
  · exact ⟨_, if_pos commit⟩
  rw [if_neg commit]
  by_cases abort : type = 6
  · exact ⟨_, if_pos abort⟩
  rw [if_neg abort]
  by_cases add : type = 2
  · rw [if_pos add] at inside ⊢
    obtain ⟨entry, read⟩ := readMeta_drop inside
    rw [read]
    exact ⟨_, rfl⟩
  rw [if_neg add] at inside ⊢
  by_cases remove : type = 3
  · rw [if_pos remove] at inside ⊢
    rw [Cursor.u64_drop _ inside]
    exact ⟨_, rfl⟩
  rw [if_neg remove] at inside ⊢
  by_cases compact : type = 4
  · rw [if_pos compact] at inside ⊢
    obtain ⟨ids, old⟩ :=
      readIds_drop (by omega : offset + 4 + 8 * word32 buffer offset ≤ buffer.length)
    obtain ⟨entries, new⟩ :=
      @readMetas_drop buffer (word32 buffer (newMetas buffer offset)) (newMetas buffer offset + 4)
      (by rw [newMetas] at inside ⊢; omega)
    rw [Cursor.u32_drop _ (by omega), ok_bind]
    dsimp only
    rw [toNat_word32, old, ok_bind]
    dsimp only
    rw [Cursor.u32_drop _ (by omega), ok_bind]
    dsimp only
    rw [toNat_word32]
    change ∃ update, (readMetas (word32 buffer (newMetas buffer offset))
      (buffer.drop (newMetas buffer offset + 4)) >>= _) =
      .ok update
    rw [new]
    exact ⟨_, rfl⟩
  · rw [if_neg compact]
    exact ⟨_, rfl⟩

theorem readRecords_inRange {fuel offset : Nat}
    (sized : ∀ record ∈ acceptedFrom buffer fuel offset,
      payloadNeeds buffer (recordType buffer record) (record + 16) ≤ recordSize buffer record)
      (txs : List RecoveredTx) :
    InRange (readRecords fuel (buffer.drop offset) txs) := by
  induction fuel generalizing offset txs with
  | zero => exact inRange_ok _
  | succ fuel ih =>
    unfold readRecords
    by_cases accepted : accepts (buffer.drop offset) = true
    · have here := (accepts_drop buffer offset).mp accepted
      rw [acceptedFrom, if_pos here, List.forall_mem_cons] at sized
      rw [if_pos accepted, slice_drop, slice_drop, declaredSize_drop,
        List.drop_drop, List.drop_drop]
      obtain ⟨update, read⟩ :=
        @readOp_drop buffer (recordType buffer offset) (offset + 16) (by omega)
      rw [show readOp (u32Of (slice buffer (offset + 8) 4))
        (buffer.drop (offset + 16)) = _ from read, ok_bind,
        ← Nat.add_assoc]
      exact ih sized.2 _
    · rw [if_neg accepted]
      exact inRange_ok _

theorem readAll_inRange (sized : WellSized buffer) : InRange (readAll (some buffer)) := by
  unfold WellSized acceptedRecords at sized
  unfold readAll
  dsimp only
  by_cases short : buffer.length < JournalHeader.size
  · rw [if_pos short]
    exact inRange_ok _
  rw [if_neg short]
  by_cases magic : u32Of (slice buffer 0 4) ≠ JournalHeader.magic
  · rw [if_pos magic]
    exact inRange_failWith _ _
  · rw [if_neg magic]
    rw [if_neg (by rintro (less | other); exacts [short less, magic other])] at sized
    exact readRecords_inRange sized []

end Reads

def bareRemoval : Bytes := u64 1 ++ (u32 3 ++ u32 0)

def bareJournal : Bytes :=
  JournalHeader.toBytes 0 ++ (bareRemoval ++ u32 (Crc32C.compute bareRemoval))

theorem bareJournal_fields :
    bareJournal.length = 36 ∧ u32Of (slice bareJournal 0 4) = JournalHeader.magic ∧
      recordType bareJournal 16 = 3 ∧
      recordSize bareJournal 16 = 0 ∧ checksumHolds bareJournal 16 = true := by
  have head : bareJournal.take 32 = JournalHeader.toBytes 0 ++ bareRemoval := by
    rw [bareJournal, ← List.append_assoc]
    exact List.take_left' rfl
  have size : recordSize bareJournal 16 = 0 := by
    rw [recordSize, word32, ← slice_take _ (by omega : 16 + 12 + 4 ≤ 32), head]
    decide
  refine ⟨?_, ?_, ?_, size, ?_⟩
  · simp [bareJournal, bareRemoval, length_header, JournalHeader.size]
  · rw [← slice_take _ (by omega : 0 + 4 ≤ 32), head]
    decide
  · rw [recordType, ← slice_take _ (by omega : 16 + 8 + 4 ≤ 32), head]
    decide
  · unfold checksumHolds
    rw [size, decide_eq_true_eq]
    have stored : slice bareJournal 32 4 = u32 (Crc32C.compute bareRemoval) := by
      have placed := @slice_append (JournalHeader.toBytes 0 ++ bareRemoval)
        (u32 (Crc32C.compute bareRemoval)) [] 32 4 rfl
        (length_u32 _).symm
      rwa [List.append_nil, List.append_assoc] at placed
    have body : slice bareJournal 16 16 = bareRemoval :=
      slice_append (JournalHeader.toBytes 0) bareRemoval _ rfl rfl
    rw [stored, show checkedSize 0 = 16 from rfl, body, u32Of_u32]

/-- The segment id of the removal is read from behind the end of the journal. -/
theorem reads_outside :
    ⟨⟨32, 8⟩, some (32, 32)⟩ ∈ readAllReads bareJournal ∧ bareJournal.length = 36 ∧
      ¬ ReadsInside bareJournal ∧
      readAll (some bareJournal) = .error .fault := by
  obtain ⟨length, magic, type, size, holds⟩ := bareJournal_fields
  have listed : ⟨⟨32, 8⟩, some (32, 32)⟩ ∈ readAllReads bareJournal := by
    have first : ⟨⟨32, 8⟩, some (32, 32)⟩ ∈ payloadReads bareJournal 16 := by
      rw [payloadReads, type, size]
      exact List.mem_cons_self
    rw [readAllReads, length, magic, if_neg (by decide), if_neg (by simp)]
    refine List.mem_cons_of_mem _ ?_
    rw [loopReads, length, if_pos (by decide), JournalHeader.size, size]
    dsimp only
    rw [if_neg (by decide), if_pos holds]
    exact List.mem_append_right _
      (List.mem_cons_of_mem _ (List.mem_cons_of_mem _ (List.mem_append_left _ first)))
  refine ⟨listed, length, fun inside => ?_, ?_⟩
  · have bound := (inside _ listed).1.2
    rw [length] at bound
    exact absurd bound (by decide)
  · have accepted : accepts (bareJournal.drop 16) = true :=
      (accepts_drop bareJournal 16).mpr ⟨by omega, by omega, holds⟩
    unfold readAll
    dsimp only
    rw [length, magic, if_neg (by decide), if_neg (by simp)]
    rw [readRecords, JournalHeader.size, if_pos accepted, slice_drop, List.drop_drop]
    have faults : Cursor.u64 Stop.fault (bareJournal.drop (16 + 16)) = .error .fault := by
      have cut : Cursor.bytes Stop.fault 8 (bareJournal.drop (16 + 16)) = .error .fault := by
        rw [Cursor.bytes, if_neg (by rw [List.length_drop, length]; decide)]
      simp only [Cursor.u64, bind, StateT.bind, cut]
      rfl
    rw [show u32Of (slice bareJournal (16 + 8) 4) = 3 from type, readOp, if_neg (by decide),
      if_neg (by decide), if_neg (by decide), if_pos rfl, faults]
    rfl

end VectorTick.Journal
