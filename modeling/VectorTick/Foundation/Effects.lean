import Mathlib.Logic.Function.Basic
import VectorTick.Foundation.Bytes

/-! Programs over a disk, as trees of file operations.

A program views the files, keeps a state in memory and performs effects. Every effect reports
how it went and the program goes on from there. A process that dies between two effects leaves
what the effects before made of the disk: `cutDisk`.
-/

set_option autoImplicit false

namespace Foundation

variable {π σ ε α β : Type}

/-- The files under their paths. -/
abbrev Disk (π : Type) : Type := π → Option Bytes

inductive Effect (π : Type) where
  -- Make sure the file exists.
  | create (path : π)
  -- Replace the contents, creating the file if needed.
  | write (path : π) (bytes : Bytes)
  | append (path : π) (bytes : Bytes)
  | rename (source target : π)
  | remove (path : π)
  -- Remove every file whose path is chosen, in no particular order.
  | sweep (chosen : π → Bool)
  -- Make a directory; directories are not part of the model.
  | mkdir

/-- How an operation ended: done, refused with nothing changed, opened but not written, or
written but not synced. -/
inductive Report where
  | done
  | refused
  | unwritten
  | unsynced
  deriving DecidableEq, Repr

/-- The operation had its effect. -/
def Report.took : Report → Bool
  | done | unsynced => true
  | refused | unwritten => false

namespace Effect

section Apply

variable [DecidableEq π]

def apply (disk : Disk π) : Effect π → Disk π
  | create path => Function.update disk path (some ((disk path).getD []))
  | write path bytes => Function.update disk path (some bytes)
  | append path bytes => Function.update disk path (some ((disk path).getD [] ++ bytes))
  | rename source target =>
    match disk source with
    | none => disk
    | some bytes => Function.update (Function.update disk source none) target (some bytes)
  | remove path => Function.update disk path none
  | sweep chosen => fun path => if chosen path then none else disk path
  | mkdir => disk

/-- A write that gets no further than opening its file leaves it empty. -/
def opened (disk : Disk π) : Effect π → Disk π
  | write path _ => Function.update disk path (some [])
  | _ => disk

/-- The disk once the operation has reported. -/
def after (disk : Disk π) (effect : Effect π) (report : Report) : Disk π :=
  match report with
  | .done | .unsynced => effect.apply disk
  | .refused => disk
  | .unwritten => effect.opened disk

@[simp] theorem apply_mkdir (disk : Disk π) : apply disk .mkdir = disk := rfl

@[simp] theorem after_done (disk : Disk π) (effect : Effect π) :
    effect.after disk .done = effect.apply disk := rfl

@[simp] theorem after_unsynced (disk : Disk π) (effect : Effect π) :
    effect.after disk .unsynced = effect.apply disk :=
  rfl

/-- What a process that dies in the middle of the operation leaves: only a sweep has a middle. -/
def broken (disk : Disk π) (reached : π → Bool) : Effect π → Disk π
  | sweep chosen => fun path => if chosen path && reached path then none else disk path
  | _ => disk

end Apply

end Effect

/-- An effect together with its report. -/
abbrev Performed (π : Type) : Type := Effect π × Report

section Disks

variable [DecidableEq π]

def applyAll (disk : Disk π) (performed : List (Performed π)) : Disk π :=
  performed.foldl (fun disk step => step.1.after disk step.2) disk

@[simp] theorem applyAll_nil (disk : Disk π) : applyAll disk [] = disk := rfl

@[simp] theorem applyAll_cons (disk : Disk π) (step : Performed π) (rest : List (Performed π)) :
    applyAll disk (step :: rest) = applyAll (step.1.after disk step.2) rest := rfl

theorem applyAll_append (disk : Disk π) (first second : List (Performed π)) :
    applyAll disk (first ++ second) = applyAll (applyAll disk first) second :=
  List.foldl_append

/-- The disk left by a process that died after `count` effects; `reached` says how far a sweep
had come that was cut. -/
def cutDisk (disk : Disk π) (performed : List (Performed π)) (count : Nat)
    (reached : π → Bool) : Disk π :=
  match performed[count]? with
  | none => applyAll disk performed
  | some step => step.1.broken (applyAll disk (performed.take count)) reached

theorem cutDisk_steady {performed : List (Performed π)}
    (steady : ∀ step ∈ performed, ∀ chosen, step.1 ≠ .sweep chosen)
    (disk : Disk π) (count : Nat) (reached : π → Bool) :
    cutDisk disk performed count reached = applyAll disk (performed.take count) := by
  unfold cutDisk
  split
  · next past => rw [List.take_of_length_le (List.getElem?_eq_none_iff.mp past)]
  · next step found =>
    have plain := steady step (List.mem_of_getElem? found)
    cases effect : step.1 with
    | sweep chosen => exact absurd effect (plain chosen)
    | create path => rfl
    | write path bytes => rfl
    | append path bytes => rfl
    | rename source target => rfl
    | remove path => rfl
    | mkdir => rfl

end Disks

/-- The effect has nothing to do with the path. -/
def Effect.Spares (path : π) : Effect π → Prop
  | create target | write target _ | append target _ | remove target => path ≠ target
  | rename source target => path ≠ source ∧ path ≠ target
  | sweep chosen => chosen path = false
  | mkdir => True

section Frame

variable {path : π} {effect : Effect π} {performed : List (Performed π)}

theorem Effect.Spares.broken (spares : effect.Spares path) (disk : Disk π) (reached : π → Bool) :
    effect.broken disk reached path = disk path := by
  cases effect <;> simp_all [Effect.Spares, Effect.broken]

variable [DecidableEq π]

theorem Effect.Spares.apply (spares : effect.Spares path) (disk : Disk π) :
    effect.apply disk path = disk path := by
  cases effect with
  | rename source target =>
    obtain ⟨first, second⟩ := spares
    cases found : disk source <;> simp [Effect.apply, found, first, second]
  | create | write | append | remove | sweep | mkdir => simp_all [Effect.Spares, Effect.apply]

theorem Effect.Spares.after (spares : effect.Spares path) (disk : Disk π) (report : Report) :
    effect.after disk report path = disk path := by
  cases report with
  | done | unsynced => exact spares.apply disk
  | refused => rfl
  | unwritten => cases effect <;> simp_all [Effect.Spares, Effect.after, Effect.opened]

theorem applyAll_spares (spares : ∀ step ∈ performed, step.1.Spares path) (disk : Disk π) :
    applyAll disk performed path = disk path := by
  induction performed generalizing disk with
  | nil => rfl
  | cons step rest ih =>
    rw [applyAll_cons, ih fun other listed => spares other (List.mem_cons_of_mem step listed)]
    exact (spares step List.mem_cons_self).after disk step.2

theorem cutDisk_spares (spares : ∀ step ∈ performed, step.1.Spares path)
    (disk : Disk π) (count : Nat)
    (reached : π → Bool) : cutDisk disk performed count reached path = disk path := by
  unfold cutDisk
  cases found : performed[count]? with
  | none => exact applyAll_spares spares disk
  | some step =>
    refine ((spares step (List.mem_of_getElem? found)).broken _ reached).trans
      (applyAll_spares ?_ disk)
    exact fun other listed => spares other (List.mem_of_mem_take listed)

end Frame

inductive Prog (π σ ε α : Type) : Type where
  | ret (value : α)
  | stop (reason : ε)
  | get (next : σ → Prog π σ ε α)
  | set (state : σ) (next : Prog π σ ε α)
  | view (next : Disk π → Prog π σ ε α)
  | perform (effect : Effect π) (next : Report → Prog π σ ε α)

namespace Prog

def bind : Prog π σ ε α → (α → Prog π σ ε β) → Prog π σ ε β
  | ret value, rest => rest value
  | stop reason, _ => stop reason
  | get next, rest => get fun state => (next state).bind rest
  | set state next, rest => set state (next.bind rest)
  | view next, rest => view fun disk => (next disk).bind rest
  | perform effect next, rest => perform effect fun report => (next report).bind rest

instance : Monad (Prog π σ ε) where
  pure := ret
  bind := bind

theorem bind_ret (program : Prog π σ ε α) : program.bind ret = program := by
  induction program with
  | ret value => rfl
  | stop reason => rfl
  | get next ih => exact congrArg get (funext ih)
  | set state next ih => exact congrArg (set state) ih
  | view next ih => exact congrArg view (funext ih)
  | perform effect next ih => exact congrArg (perform effect) (funext ih)

theorem bind_bind {γ : Type} (program : Prog π σ ε α) (second : α → Prog π σ ε β)
    (third : β → Prog π σ ε γ) :
    (program.bind second).bind third = program.bind fun value => (second value).bind third := by
  induction program with
  | ret value => rfl
  | stop reason => rfl
  | get next ih => exact congrArg get (funext ih)
  | set state next ih => exact congrArg (set state) ih
  | view next ih => exact congrArg view (funext ih)
  | perform effect next ih => exact congrArg (perform effect) (funext ih)

instance : LawfulMonad (Prog π σ ε) := LawfulMonad.mk' _ bind_ret (fun _ _ => rfl) bind_bind

def fetch : Prog π σ ε σ := get ret

def store (state : σ) : Prog π σ ε Unit := set state (ret ())

def files : Prog π σ ε (Disk π) := view ret

def act (effect : Effect π) : Prog π σ ε Report := perform effect ret

/-- A computation that touches no file. -/
def lift : Except ε α → Prog π σ ε α
  | .ok value => ret value
  | .error reason => stop reason

/-- How a program went. `reports` are the reports left for what comes behind it. -/
structure Run (π σ ε α : Type) where
  outcome : Except ε α
  disk : Disk π
  state : σ
  reports : List Report
  performed : List (Performed π)

namespace Run

/-- Put what was performed before in front. -/
def behind (performed : List (Performed π)) (run : Run π σ ε α) : Run π σ ε α :=
  { run with performed := performed ++ run.performed }

theorem behind_behind (first second : List (Performed π)) (run : Run π σ ε α) :
    (run.behind second).behind first = run.behind (first ++ second) := by
  simp only [behind, List.append_assoc]

@[simp] theorem behind_outcome (performed : List (Performed π)) (run : Run π σ ε α) :
    (run.behind performed).outcome = run.outcome := rfl

@[simp] theorem behind_disk (performed : List (Performed π)) (run : Run π σ ε α) :
    (run.behind performed).disk = run.disk := rfl

@[simp] theorem behind_state (performed : List (Performed π)) (run : Run π σ ε α) :
    (run.behind performed).state = run.state := rfl

@[simp] theorem behind_reports (performed : List (Performed π)) (run : Run π σ ε α) :
    (run.behind performed).reports = run.reports := rfl

@[simp] theorem behind_performed (performed : List (Performed π)) (run : Run π σ ε α) :
    (run.behind performed).performed = performed ++ run.performed := rfl

end Run

section Exec

variable [DecidableEq π]

/-- Run a program. `reports` says how its effects go, one after the other; when it is used up,
they go well. -/
def exec : Prog π σ ε α → List Report → Disk π → σ → Run π σ ε α
  | ret value, reports, disk, state => ⟨.ok value, disk, state, reports, []⟩
  | stop reason, reports, disk, state => ⟨.error reason, disk, state, reports, []⟩
  | get next, reports, disk, state => (next state).exec reports disk state
  | set state next, reports, disk, _ => next.exec reports disk state
  | view next, reports, disk, state => (next disk).exec reports disk state
  | perform effect next, reports, disk, state =>
    let report := reports.headD .done
    ((next report).exec reports.tail (effect.after disk report) state).behind [(effect, report)]

@[simp] theorem exec_pure (value : α) (reports : List Report) (disk : Disk π) (state : σ) :
    (pure value : Prog π σ ε α).exec reports disk state = ⟨.ok value, disk, state, reports, []⟩ :=
  rfl

@[simp] theorem exec_fetch (rest : σ → Prog π σ ε β) (reports : List Report)
    (disk : Disk π) (state : σ) :
    (fetch >>= rest).exec reports disk state = (rest state).exec reports disk state := rfl

@[simp] theorem exec_files (rest : Disk π → Prog π σ ε β) (reports : List Report)
    (disk : Disk π) (state : σ) :
    (files >>= rest).exec reports disk state = (rest disk).exec reports disk state := rfl

theorem exec_act (effect : Effect π) (rest : Report → Prog π σ ε β)
    (reports : List Report) (disk : Disk π)
    (state : σ) : (act effect >>= rest).exec reports disk state =
      ((rest (reports.headD .done)).exec reports.tail
        (effect.after disk (reports.headD .done)) state).behind
        [(effect, reports.headD .done)] := rfl

theorem exec_bind (first : Prog π σ ε α) (rest : α → Prog π σ ε β)
    (reports : List Report) (disk : Disk π)
    (state : σ) :
    (first >>= rest).exec reports disk state =
      match (first.exec reports disk state).outcome with
      | .ok value =>
        ((rest value).exec (first.exec reports disk state).reports
          (first.exec reports disk state).disk
          (first.exec reports disk state).state).behind (first.exec reports disk state).performed
      | .error reason =>
        ⟨.error reason, (first.exec reports disk state).disk, (first.exec reports disk state).state,
          (first.exec reports disk state).reports, (first.exec reports disk state).performed⟩ := by
  change (first.bind rest).exec reports disk state = _
  induction first generalizing reports disk state with
  | ret value => rfl
  | stop reason => rfl
  | get next ih => exact ih state reports disk state
  | set kept next ih => exact ih reports disk kept
  | view next ih => exact ih disk reports disk state
  | perform effect next ih =>
    simp only [bind, exec, Run.behind_outcome, Run.behind_disk, Run.behind_state,
      Run.behind_reports, Run.behind_performed]
    rw [ih]
    cases ((next (reports.headD .done)).exec reports.tail
      (effect.after disk (reports.headD .done)) state).outcome with
    | ok value => exact Run.behind_behind _ _ _
    | error reason => rfl

theorem exec_bind_ok {first : Prog π σ ε α} {rest : α → Prog π σ ε β} {reports later : List Report}
    {disk middle : Disk π} {state between : σ} {value : α} {performed : List (Performed π)}
    (ran : first.exec reports disk state = ⟨.ok value, middle, between, later, performed⟩) :
    (first >>= rest).exec reports disk state =
      ((rest value).exec later middle between).behind performed := by
  rw [exec_bind, ran]

theorem exec_bind_error {first : Prog π σ ε α} {rest : α → Prog π σ ε β}
    {reports later : List Report}
    {disk middle : Disk π} {state between : σ} {reason : ε} {performed : List (Performed π)}
    (ran : first.exec reports disk state = ⟨.error reason, middle, between, later, performed⟩) :
    (first >>= rest).exec reports disk state =
      ⟨.error reason, middle, between, later, performed⟩ := by
  rw [exec_bind, ran]

theorem exec_disk (program : Prog π σ ε α) (reports : List Report) (disk : Disk π) (state : σ) :
    (program.exec reports disk state).disk =
      applyAll disk (program.exec reports disk state).performed := by
  induction program generalizing reports disk state with
  | ret value => rfl
  | stop reason => rfl
  | get next ih => exact ih state reports disk state
  | set kept next ih => exact ih reports disk kept
  | view next ih => exact ih disk reports disk state
  | perform effect next ih => exact ih (reports.headD .done) reports.tail _ state

end Exec

end Prog

end Foundation
