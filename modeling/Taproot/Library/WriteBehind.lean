import Mathlib.Data.List.Basic
import Taproot.Library.Simulation

/-!
# Taproot.Library.WriteBehind

A **write-behind history**: the writes of a store in their order, with two marks
in it. What lies before `flushed` is on the medium, what lies between the marks
is on its way there, and the rest is held in memory. A crash forgets a part of
what is not on the medium, and always the latest part.

What is on the medium is never lost (`Steps.flushed_prefix`), and without a
crash nothing is (`Steps.history_prefix`), whatever the order of the actions.
-/

/-- The writes of a store, and how far they have got. -/
structure WriteBehind (α : Type*) where
  history : List α
  flushed : Nat
  taken : Nat
  flushed_le : flushed ≤ taken
  taken_le : taken ≤ history.length

namespace WriteBehind

variable {α : Type*}

/-- What can happen to the history. -/
inductive Act (α : Type*)
  | write (us : List α)
  /-- All that is held is taken over, unless something still is on its way. -/
  | swap
  /-- What is on its way arrives. -/
  | flush
  /-- The process ends at once; a part of what is on its way has arrived. -/
  | crash
  /-- The process ends while it writes out all that it holds. -/
  | halt
  /-- It ends when all is written out. -/
  | restart

/-- The part that is on the medium. -/
def saved (w : WriteBehind α) : List α := w.history.take w.flushed

/-- The part that is on its way. -/
def inflight (w : WriteBehind α) : List α := (w.history.take w.taken).drop w.flushed

/-- The part that is held in memory. -/
def held (w : WriteBehind α) : List α := w.history.drop w.taken

/-- A history all of which is on the medium. -/
def settled (us : List α) : WriteBehind α :=
  ⟨us, us.length, us.length, Nat.le_refl _, Nat.le_refl _⟩

def write (w : WriteBehind α) (us : List α) : WriteBehind α where
  history := w.history ++ us
  flushed := w.flushed
  taken := w.taken
  flushed_le := w.flushed_le
  taken_le := by
    rw [List.length_append]
    exact Nat.le_add_right_of_le w.taken_le

def swap (w : WriteBehind α) : WriteBehind α where
  history := w.history
  flushed := w.flushed
  taken := if w.flushed = w.taken then w.history.length else w.taken
  flushed_le := by
    have hflushed := w.flushed_le
    have htaken := w.taken_le
    split <;> omega
  taken_le := by
    have htaken := w.taken_le
    split <;> omega

def flush (w : WriteBehind α) : WriteBehind α where
  history := w.history
  flushed := w.taken
  taken := w.taken
  flushed_le := Nat.le_refl _
  taken_le := w.taken_le

/-- What an action may lead to. -/
inductive Step : WriteBehind α → Act α → WriteBehind α → Prop
  | write (w : WriteBehind α) (us : List α) : Step w (.write us) (w.write us)
  | swap (w : WriteBehind α) : Step w .swap w.swap
  | flush (w : WriteBehind α) : Step w .flush w.flush
  | crash {w : WriteBehind α} {us : List α} (saved : w.saved <+: us)
      (taken : us <+: w.saved ++ w.inflight) : Step w .crash (settled us)
  | halt {w : WriteBehind α} {us : List α} (saved : w.saved <+: us)
      (history : us <+: w.history) : Step w .halt (settled us)
  | restart (w : WriteBehind α) : Step w .restart (settled w.history)

/-! ### The three parts -/

theorem saved_append_inflight (w : WriteBehind α) :
    w.saved ++ w.inflight = w.history.take w.taken := by
  have hsaved : w.saved = (w.history.take w.taken).take w.flushed := by
    rw [saved, List.take_take, Nat.min_eq_left w.flushed_le]
  rw [hsaved, inflight, List.take_append_drop]

/-- The parts make up the history. -/
theorem saved_append (w : WriteBehind α) : w.saved ++ w.inflight ++ w.held = w.history := by
  rw [saved_append_inflight, held, List.take_append_drop]

theorem saved_prefix (w : WriteBehind α) : w.saved <+: w.history := List.take_prefix _ _

@[simp] theorem saved_settled (us : List α) : (settled us).saved = us := List.take_length

@[simp] theorem inflight_settled (us : List α) : (settled us).inflight = [] := by
  simp [inflight, settled]

@[simp] theorem held_settled (us : List α) : (settled us).held = [] := List.drop_length

@[simp] theorem history_settled (us : List α) : (settled us).history = us := rfl

@[simp] theorem history_write (w : WriteBehind α) (us : List α) :
    (w.write us).history = w.history ++ us := rfl

@[simp] theorem saved_write (w : WriteBehind α) (us : List α) : (w.write us).saved = w.saved :=
  List.take_append_of_le_length (Nat.le_trans w.flushed_le w.taken_le)

@[simp] theorem inflight_write (w : WriteBehind α) (us : List α) :
    (w.write us).inflight = w.inflight :=
  congrArg (List.drop w.flushed) (List.take_append_of_le_length w.taken_le)

@[simp] theorem held_write (w : WriteBehind α) (us : List α) : (w.write us).held = w.held ++ us :=
  List.drop_append_of_le_length w.taken_le

theorem inflight_eq_nil_iff (w : WriteBehind α) : w.inflight = [] ↔ w.flushed = w.taken := by
  have hflushed := w.flushed_le
  have htaken := w.taken_le
  rw [inflight, List.drop_eq_nil_iff, List.length_take, Nat.min_eq_left htaken]
  omega

@[simp] theorem history_swap (w : WriteBehind α) : w.swap.history = w.history := rfl

@[simp] theorem saved_swap (w : WriteBehind α) : w.swap.saved = w.saved := rfl

theorem swap_of_inflight_ne_nil {w : WriteBehind α} (h : w.inflight ≠ []) : w.swap = w := by
  rw [Ne, inflight_eq_nil_iff] at h
  simp [swap, h]

/-- A swap takes over all that is held. -/
theorem swap_of_inflight_eq_nil {w : WriteBehind α} (h : w.inflight = []) :
    w.swap.inflight = w.held ∧ w.swap.held = [] := by
  rw [inflight_eq_nil_iff] at h
  constructor
  · simp [inflight, swap, held, h]
  · simp [held, swap, h]

@[simp] theorem history_flush (w : WriteBehind α) : w.flush.history = w.history := rfl

@[simp] theorem saved_flush (w : WriteBehind α) : w.flush.saved = w.saved ++ w.inflight :=
  w.saved_append_inflight.symm

@[simp] theorem inflight_flush (w : WriteBehind α) : w.flush.inflight = [] :=
  (inflight_eq_nil_iff _).mpr rfl

@[simp] theorem held_flush (w : WriteBehind α) : w.flush.held = w.held := rfl

/-! ### What is never lost -/

theorem Step.flushed_prefix {w w' : WriteBehind α} {a : Act α} (h : Step w a w') :
    w.saved <+: w'.saved := by
  cases h with
  | write us => exact (saved_write w us).symm ▸ List.prefix_rfl
  | swap => exact List.prefix_rfl
  | flush => rw [saved_flush]; exact List.prefix_append _ _
  | crash saved taken => rw [saved_settled]; exact saved
  | halt saved history => rw [saved_settled]; exact saved
  | restart => rw [saved_settled]; exact w.saved_prefix

/-- **What is on the medium stays there**, through every crash. -/
theorem Steps.flushed_prefix {w w' : WriteBehind α} {acts : List (Act α)}
    (h : Machine.Steps Step w acts w') : w.saved <+: w'.saved :=
  h.related (r := fun w w' => w.saved <+: w'.saved) (fun _ => List.prefix_rfl) List.IsPrefix.trans
    fun _ _ _ _ => Step.flushed_prefix

/-- The actions that forget nothing. -/
def Act.Keeps : Act α → Prop
  | crash => False
  | halt => False
  | _ => True

theorem Step.history_prefix {w w' : WriteBehind α} {a : Act α} (h : Step w a w') (ha : a.Keeps) :
    w.history <+: w'.history := by
  cases h with
  | write us => exact List.prefix_append _ _
  | swap => exact List.prefix_rfl
  | flush => exact List.prefix_rfl
  | crash saved taken => exact ha.elim
  | halt saved history => exact ha.elim
  | restart => exact List.prefix_rfl

/-- Without a crash nothing is lost. -/
theorem Steps.history_prefix {w w' : WriteBehind α} {acts : List (Act α)}
    (h : Machine.Steps Step w acts w') (hacts : ∀ a ∈ acts, a.Keeps) : w.history <+: w'.history :=
  h.related (r := fun w w' => w.history <+: w'.history) (fun _ => List.prefix_rfl)
    List.IsPrefix.trans fun _ a ha _ hstep => hstep.history_prefix (hacts a ha)

end WriteBehind
