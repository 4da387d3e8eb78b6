import Mathlib.Data.List.Forall2

/-! Replaying a log over a list of entries with keys.

An action of the log puts an entry in the place of the first one of its key, or at the end, or dims
the first entry of a key. A log that is replayed over its own result changes nothing.
-/

set_option autoImplicit false

namespace Foundation

inductive LogAction (κ α : Type) where
  | put (entry : α)
  | dim (key : κ)

variable {κ α : Type}

/-- How entries are keyed and dimmed: dimming keeps the key, and twice is once. -/
structure Keyed (κ α : Type) where
  key : α → κ
  dimmed : α → α
  key_dimmed : ∀ entry, key (dimmed entry) = key entry
  dimmed_dimmed : ∀ entry, dimmed (dimmed entry) = dimmed entry

namespace Keyed

variable (keyed : Keyed κ α)

/-- The key that an action is about. -/
def about : LogAction κ α → κ
  | .put entry => keyed.key entry
  | .dim key => key

/-- What becomes of the entry that an action meets. -/
def revise (entry : α) : LogAction κ α → α
  | .put other => other
  | .dim _ => keyed.dimmed entry

/-- What an action leaves at the end of a list that does not hold its key. -/
def appended : LogAction κ α → List α
  | .put entry => [entry]
  | .dim _ => []

theorem key_revise {entry : α} {action : LogAction κ α}
    (same : keyed.key entry = keyed.about action) :
    keyed.key (keyed.revise entry action) = keyed.key entry := by
  cases action with
  | put other => exact same.symm
  | dim key => exact keyed.key_dimmed entry

theorem foldl_revise_cases (log : List (LogAction κ α)) :
    (∃ last, ∀ entry, log.foldl keyed.revise entry = last) ∨
      (∀ entry, log.foldl keyed.revise entry = entry) ∨
      ∀ entry, log.foldl keyed.revise entry = keyed.dimmed entry := by
  induction log with
  | nil => exact .inr (.inl fun _ => rfl)
  | cons action log ih =>
    simp only [List.foldl_cons]
    cases action with
    | put other => exact .inl ⟨log.foldl keyed.revise other, fun _ => rfl⟩
    | dim key =>
      simp only [revise]
      rcases ih with ⟨last, constant⟩ | identity | dims
      · exact .inl ⟨last, fun entry => constant _⟩
      · exact .inr (.inr fun entry => identity _)
      · exact .inr (.inr fun entry => (dims _).trans (keyed.dimmed_dimmed entry))

theorem foldl_revise_again (entry : α) (log : List (LogAction κ α)) :
    log.foldl keyed.revise (log.foldl keyed.revise entry) = log.foldl keyed.revise entry := by
  rcases keyed.foldl_revise_cases log with ⟨last, constant⟩ | identity | dims
  · rw [constant, constant]
  · rw [identity]
  · rw [dims, dims, keyed.dimmed_dimmed]

theorem log_cases (log : List (LogAction κ α)) :
    (∀ action ∈ log, ∃ key, action = LogAction.dim key) ∨
      ∃ front entry behind, log = front ++ LogAction.put entry :: behind ∧
        ∀ action ∈ front, ∃ key, action = LogAction.dim key := by
  induction log with
  | nil => exact .inl fun action listed => by cases listed
  | cons action log ih =>
    cases action with
    | put entry => exact .inr ⟨[], entry, log, rfl, fun action listed => by cases listed⟩
    | dim key =>
      rcases ih with dims | ⟨front, entry, behind, rfl, dims⟩
      · exact .inl (List.forall_mem_cons.mpr ⟨⟨key, rfl⟩, dims⟩)
      · exact .inr ⟨.dim key :: front, entry, behind, rfl,
          List.forall_mem_cons.mpr ⟨⟨key, rfl⟩, dims⟩⟩

/-- One list has the entries of another, some of them dimmed. -/
def Darker (first second : List α) : Prop :=
  List.Forall₂ (fun one other => one = other ∨ one = keyed.dimmed other) first second

theorem darker_refl (entries : List α) : keyed.Darker entries entries :=
  List.forall₂_same.mpr fun _ _ => .inl rfl

section Play

variable [DecidableEq κ]

def play : List α → LogAction κ α → List α
  | [], action => appended action
  | entry :: rest, action =>
    if keyed.key entry = keyed.about action then keyed.revise entry action :: rest
      else entry :: play rest action

def playAll (entries : List α) (log : List (LogAction κ α)) : List α := log.foldl keyed.play entries

theorem playAll_step (entries : List α) (action : LogAction κ α) (log : List (LogAction κ α)) :
    keyed.playAll entries (action :: log) = keyed.playAll (keyed.play entries action) log := rfl

/-- The actions of a log about a key, and those about others. -/
def here (key : κ) (log : List (LogAction κ α)) : List (LogAction κ α) :=
  log.filter (keyed.about · = key)

def elsewhere (key : κ) (log : List (LogAction κ α)) : List (LogAction κ α) :=
  log.filter (keyed.about · ≠ key)

theorem playAll_cons (entry : α) (rest : List α) (log : List (LogAction κ α)) :
    keyed.playAll (entry :: rest) log =
      (keyed.here (keyed.key entry) log).foldl keyed.revise entry ::
        keyed.playAll rest (keyed.elsewhere (keyed.key entry) log) := by
  induction log generalizing entry rest with
  | nil => rfl
  | cons action log ih =>
    rw [playAll_step, play]
    by_cases same : keyed.key entry = keyed.about action
    · rw [if_pos same, ih, keyed.key_revise same]
      simp [here, elsewhere, same]
    · have apart : ¬ keyed.about action = keyed.key entry := fun other => same other.symm
      rw [if_neg same, ih]
      simp [here, elsewhere, apart, playAll_step]

theorem key_foldl_revise (entry : α) (log : List (LogAction κ α)) :
    keyed.key ((keyed.here (keyed.key entry) log).foldl keyed.revise entry) = keyed.key entry := by
  induction log generalizing entry with
  | nil => rfl
  | cons action log ih =>
    by_cases same : keyed.about action = keyed.key entry
    · have kept := keyed.key_revise same.symm
      rw [here, List.filter_cons_of_pos (by simpa using same), List.foldl_cons, ← here, ← kept, ih]
    · rw [here, List.filter_cons_of_neg (by simpa using same), ← here, ih]

theorem playAll_forall {P : α → Prop} (dims : ∀ entry, P entry → P (keyed.dimmed entry))
    {entries : List α}
    {log : List (LogAction κ α)} (start : ∀ entry ∈ entries, P entry)
    (puts : ∀ entry, .put entry ∈ log → P entry) :
    ∀ entry ∈ keyed.playAll entries log, P entry := by
  have revised (entry : α) (action : LogAction κ α)
      (fits : ∀ other, action = .put other → P other) (good : P entry) :
      P (keyed.revise entry action) := by
    cases action with
    | put other => exact fits other rfl
    | dim key => exact dims entry good
  have one (entries : List α) (action : LogAction κ α)
      (fits : ∀ other, action = .put other → P other)
      (start : ∀ entry ∈ entries, P entry) : ∀ entry ∈ keyed.play entries action, P entry := by
    induction entries with
    | nil =>
      cases action with
      | put other => exact List.forall_mem_singleton.mpr (fits other rfl)
      | dim key => exact start
    | cons first rest ih =>
      obtain ⟨head, tail⟩ := List.forall_mem_cons.mp start
      rw [play]
      split
      · exact List.forall_mem_cons.mpr ⟨revised first action fits head, tail⟩
      · exact List.forall_mem_cons.mpr ⟨head, ih tail⟩
  induction log generalizing entries with
  | nil => exact start
  | cons action log ih =>
    refine ih (one entries action (fun other same => puts other ?_) start) fun entry listed =>
      puts entry (List.mem_cons_of_mem _ listed)
    rw [same]
    exact List.mem_cons_self

theorem playAll_dims {log : List (LogAction κ α)}
    (dims : ∀ action ∈ log, ∃ key, action = .dim key) :
    keyed.playAll [] log = [] := by
  induction log with
  | nil => rfl
  | cons action log ih =>
    obtain ⟨key, rfl⟩ := dims action List.mem_cons_self
    exact ih fun other listed => dims other (List.mem_cons_of_mem _ listed)

theorem playAll_append (entries : List α) (first second : List (LogAction κ α)) :
    keyed.playAll entries (first ++ second) = keyed.playAll (keyed.playAll entries first) second :=
  List.foldl_append

theorem playAll_nil_again (log : List (LogAction κ α)) :
    keyed.playAll (keyed.playAll [] log) log = keyed.playAll [] log := by
  induction size : log.length using Nat.strongRecOn generalizing log with
  | _ size ih =>
    subst size
    rcases log_cases log with dims | ⟨front, entry, behind, whole, dims⟩
    · rw [keyed.playAll_dims dims, keyed.playAll_dims dims]
    · -- The first entry put is the first of the result; the others come from a shorter log.
      have start : keyed.playAll [] log = keyed.playAll [entry] behind := by
        rw [whole, playAll_append, keyed.playAll_dims dims]
        rfl
      have rest : keyed.playAll [] (keyed.elsewhere (keyed.key entry) log) =
          keyed.playAll [] (keyed.elsewhere (keyed.key entry) behind) := by
        have still : ∀ action ∈ keyed.elsewhere (keyed.key entry) front, ∃ key, action = .dim key :=
          fun action listed => dims action (List.mem_of_mem_filter listed)
        rw [whole, elsewhere, List.filter_append, List.filter_cons_of_neg (by simp [about]),
          ← elsewhere, ← elsewhere, playAll_append, keyed.playAll_dims still]
      have shorter : (keyed.elsewhere (keyed.key entry) log).length < log.length := by
        refine List.length_filter_lt_length_iff_exists.mpr ⟨.put entry, ?_, by simp [about]⟩
        rw [whole]
        exact List.mem_append_right _ List.mem_cons_self
      have settled : (keyed.here (keyed.key entry) log).foldl keyed.revise
          ((keyed.here (keyed.key entry) behind).foldl keyed.revise entry) =
            (keyed.here (keyed.key entry) behind).foldl keyed.revise entry := by
        have split : keyed.here (keyed.key entry) log = keyed.here (keyed.key entry) front ++
            (.put entry :: keyed.here (keyed.key entry) behind) := by
          rw [whole, here, List.filter_append, List.filter_cons_of_pos (by simp [about])]
          rfl
        rw [split, List.foldl_append, List.foldl_cons]
        rfl
      rw [start, playAll_cons, playAll_cons, key_foldl_revise, settled, ← rest, ih _ shorter _ rfl]

theorem playAll_again (entries : List α) (log : List (LogAction κ α)) :
    keyed.playAll (keyed.playAll entries log) log = keyed.playAll entries log := by
  induction entries generalizing log with
  | nil => exact keyed.playAll_nil_again log
  | cons entry rest ih =>
    have settled : (keyed.here (keyed.key entry) log).foldl keyed.revise
        ((keyed.here (keyed.key entry) log).foldl keyed.revise entry) =
          (keyed.here (keyed.key entry) log).foldl keyed.revise entry :=
            keyed.foldl_revise_again entry _
    rw [playAll_cons, playAll_cons, key_foldl_revise, settled, ih]

/-- The log with a function over the entries it puts. -/
def mapPut (f : α → α) : LogAction κ α → LogAction κ α
  | .put entry => .put (f entry)
  | .dim key => .dim key

section Map

variable {f : α → α}

theorem play_map (key_f : ∀ entry, keyed.key (f entry) = keyed.key entry)
    (f_dimmed : ∀ entry, f (keyed.dimmed entry) = keyed.dimmed (f entry)) (entries : List α)
    (action : LogAction κ α) :
    (keyed.play entries action).map f = keyed.play (entries.map f) (mapPut f action) := by
  have about : keyed.about (mapPut f action) = keyed.about action := by
    cases action with
    | put entry => exact key_f entry
    | dim key => rfl
  induction entries with
  | nil => cases action <;> rfl
  | cons entry rest ih =>
    rw [play, List.map_cons, play, key_f, about]
    by_cases same : keyed.key entry = keyed.about action
    · rw [if_pos same, if_pos same, List.map_cons]
      cases action with
      | put other => rfl
      | dim key => exact congrArg (· :: rest.map f) (f_dimmed entry)
    · rw [if_neg same, if_neg same, List.map_cons, ih]

theorem playAll_map (key_f : ∀ entry, keyed.key (f entry) = keyed.key entry)
    (f_dimmed : ∀ entry, f (keyed.dimmed entry) = keyed.dimmed (f entry)) (entries : List α)
    (log : List (LogAction κ α)) :
    (keyed.playAll entries log).map f = keyed.playAll (entries.map f) (log.map (mapPut f)) := by
  induction log generalizing entries with
  | nil => rfl
  | cons action log ih =>
    rw [playAll_step, ih, play_map keyed key_f f_dimmed, List.map_cons, playAll_step]

theorem map_playAll_again (key_f : ∀ entry, keyed.key (f entry) = keyed.key entry)
    (f_dimmed : ∀ entry, f (keyed.dimmed entry) = keyed.dimmed (f entry))
    (f_f : ∀ entry, f (f entry) = f entry)
    (entries : List α) (log : List (LogAction κ α)) :
    (keyed.playAll ((keyed.playAll entries log).map f) log).map f =
      (keyed.playAll entries log).map f := by
  have once : (keyed.playAll entries log).map f =
      keyed.playAll (entries.map f) (log.map (mapPut f)) :=
    keyed.playAll_map key_f f_dimmed entries log
  have twice : ((keyed.playAll entries log).map f).map f = (keyed.playAll entries log).map f := by
    rw [List.map_map]
    exact List.map_congr_left fun entry _ => f_f entry
  rw [playAll_map keyed key_f f_dimmed, twice, once, playAll_again]

end Map

theorem Darker.play {keyed : Keyed κ α} {first second : List α} (darker : keyed.Darker first second)
    (action : LogAction κ α) :
    keyed.Darker (keyed.play first action) (keyed.play second action) := by
  induction darker with
  | nil => exact keyed.darker_refl _
  | @cons one other first second head tail ih =>
    have keys : keyed.key one = keyed.key other := by
      rcases head with rfl | rfl
      · rfl
      · exact keyed.key_dimmed other
    rw [Keyed.play, Keyed.play, keys]
    by_cases met : keyed.key other = keyed.about action
    · rw [if_pos met, if_pos met]
      refine .cons (.inl ?_) tail
      cases action with
      | put entry => rfl
      | dim key =>
        rcases head with rfl | rfl
        · rfl
        · exact keyed.dimmed_dimmed other
    · rw [if_neg met, if_neg met]
      exact .cons head ih

theorem Darker.playAll {keyed : Keyed κ α} {first second : List α}
    (darker : keyed.Darker first second)
    (log : List (LogAction κ α)) :
    keyed.Darker (keyed.playAll first log) (keyed.playAll second log) := by
  induction log generalizing first second with
  | nil => exact darker
  | cons action log ih => exact ih (darker.play action)

end Play

end Keyed

end Foundation
