import VectorTick.Foundation.Memory

/-! Status values and the ways a modelled call can stop early.

A call that returns a non-OK `Status` stops with that status. A read or write outside the
memory block it was given has no defined outcome in the source, nor has a signed quotient out of
range; the model stops there with `fault`, so a range-safety statement says that `fault` is not
the outcome.
-/

set_option autoImplicit false

namespace VectorTick

open Foundation

/-- The codes the modelled functions return; success is not a code here. -/
inductive StatusCode where
  | invalidArgument
  | outOfRange
  | bufferTooSmall
  | notImplemented
  | internalError
  | fileNotFound
  | fileOpenFailed
  | fileWriteFailed
  | fileSyncFailed
  | fileRenameFailed
  | directoryCreateFailed
  | mmapFailed
  | invalidMagic
  | invalidVersion
  | invalidChecksum
  | invalidLength
  | invalidMessageType
  | invalidPayload
  | invalidTimestamp
  | truncatedFrame
  | reservedFieldNotZero
  | sequenceNotMonotonic
  | pcapInvalidHeader
  | pcapUnsupportedLinkType
  | pcapTruncatedRecord
  | pcapInvalidIPv4Header
  | pcapFragmentedPacket
  | pcapInvalidUDPHeader
  | segmentInvalidHeader
  | segmentInvalidBlock
  | segmentSchemaMismatch
  | segmentChecksumFailed
  | segmentCorrupted
  | manifestInvalid
  | manifestCorrupted
  | journalInvalid
  | parserError
  | limitExceeded
  | allocationFailed
  deriving DecidableEq, Repr

structure Status where
  code : StatusCode
  message : String
  deriving DecidableEq, Repr

inductive Stop where
  | status (status : Status)
  | fault
  -- An allocation beyond the address space throws; out of a `noexcept`
  -- function that ends the process.
  | terminate
  deriving DecidableEq, Repr

def failWith {α : Type} (code : StatusCode) (message : String) : Except Stop α :=
  .error (.status ⟨code, message⟩)

theorem ok_bind {α β : Type} (value : α) (next : α → Except Stop β) :
    ((.ok value : Except Stop α) >>= next) = next value := by
  simp only [bind, Except.bind]

theorem error_bind {α β : Type} (stop : Stop) (next : α → Except Stop β) :
    ((.error stop : Except Stop α) >>= next) = .error stop := by
  simp only [bind, Except.bind]

/-- A call that ended without touching memory outside its blocks. -/
def InRange {α : Type} (outcome : Except Stop α) : Prop := outcome ≠ .error .fault

theorem inRange_ok {α : Type} (value : α) : InRange (.ok value : Except Stop α) := by
  simp [InRange]

theorem inRange_failWith {α : Type} (code : StatusCode) (message : String) :
    InRange (failWith code message : Except Stop α) := by
  simp [InRange, failWith]

/-- A call that ended well or with a status. -/
def Answers {α : Type} (outcome : Except Stop α) : Prop :=
  (∃ value, outcome = .ok value) ∨ ∃ status, outcome = .error (.status status)

theorem answers_ok {α : Type} (value : α) : Answers (.ok value : Except Stop α) := .inl ⟨value, rfl⟩

theorem answers_failWith {α : Type} (code : StatusCode) (message : String) :
    Answers (failWith code message : Except Stop α) := .inr ⟨⟨code, message⟩, rfl⟩

theorem Answers.bind {α β : Type} {first : Except Stop α}
    {next : α → Except Stop β} (safe : Answers first)
    (rest : ∀ value, first = .ok value → Answers (next value)) : Answers (first >>= next) := by
  rcases safe with ⟨value, done⟩ | ⟨status, failed⟩
  · rw [done, ok_bind]
    exact rest value done
  · rw [failed, error_bind]
    exact .inr ⟨status, rfl⟩

theorem Answers.guard {β : Type} {refuse : Prop} [Decidable refuse]
    {code : StatusCode} {message : String}
    {next : Unit → Except Stop β} (rest : ¬ refuse → Answers (next ())) :
    Answers (if refuse then (failWith code message : Except Stop Unit) >>= next else next ()) := by
  split
  · exact (answers_failWith code message).bind fun _ failed => by cases failed
  · exact rest ‹_›

theorem guard_ok {α : Type} {refuse : Prop} [Decidable refuse]
    {code : StatusCode} {message : String}
    {next : Unit → Except Stop α} {value : α}
    (passed : (if refuse then (failWith code message : Except Stop Unit) >>= next
      else next ()) = .ok value) :
    ¬ refuse ∧ next () = .ok value := by
  by_cases refused : refuse
  · rw [if_pos refused] at passed
    cases passed
  · rw [if_neg refused] at passed
    exact ⟨refused, passed⟩

/-- The memory blocks of the source, with its undefined accesses made a fault. -/
def loadFrom (memory : Bytes) (offset count : Nat) : Except Stop Bytes :=
  load .fault memory offset count

theorem answers_load {memory : Bytes} {offset count : Nat}
    (inside : offset + count ≤ memory.length) :
    Answers (loadFrom memory offset count) := .inl ⟨_, load_inside _ inside⟩

def storeTo (memory : Bytes) (offset : Nat) (bytes : Bytes) : Except Stop Bytes :=
  store .fault memory offset bytes

end VectorTick
