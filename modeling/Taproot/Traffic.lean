import Taproot.Keyspace
import Taproot.Reread

/-!
# Taproot.Traffic

**Commands and rounds of the flusher**, in any order, on a keyspace whose log
is open: the ordinary life of a keyspace.

`Journaled` says what holds throughout (`journaled_run`): the records appended
since some earlier moment are exactly what happened to the store since then,
`dirty` counts them, and the text of the log is what it was then followed by
their lines.
-/

namespace Taproot

open Posix Journal

/-- The commands, and the two halves of a round of the flusher. -/
def Event.isTraffic : Event → Bool
  | command _ => true
  | swap => true
  | write => true
  | _ => false

namespace Keyspace

/-- The log has mirrored the store since the text was `opening` and the store
was `start`. -/
structure Journaled (opening : Bytes) (start : Store) (ks : Keyspace) : Prop where
  isOpen : ks.db.logger.logfile.isSome
  replaying : ks.db.replaying = false
  text_eq : ks.text = opening ++ logLines ks.db.logger.appended
  store_eq : ks.db.store = replay start ks.db.logger.appended
  dirty_eq : ks.db.dirty = changes start ks.db.logger.appended
  shaped : ∀ r ∈ ks.db.logger.appended, RecordShape r

variable {opening name a : Bytes} {start : Store} {ks : Keyspace}

/-- An event that leaves the store, the history and the text alone. -/
theorem Journaled.of_eq (h : Journaled opening start ks) {ks' : Keyspace}
    (hlogfile : ks'.db.logger.logfile = ks.db.logger.logfile)
    (happended : ks'.db.logger.appended = ks.db.logger.appended)
    (hreplaying : ks'.db.replaying = ks.db.replaying) (hstore : ks'.db.store = ks.db.store)
    (hdirty : ks'.db.dirty = ks.db.dirty) (htext : ks'.text = ks.text) :
    Journaled opening start ks' where
  isOpen := by rw [hlogfile]; exact h.isOpen
  replaying := hreplaying.trans h.replaying
  text_eq := by rw [htext, happended]; exact h.text_eq
  store_eq := by rw [hstore, happended]; exact h.store_eq
  dirty_eq := by rw [hdirty, happended]; exact h.dirty_eq
  shaped := by rw [happended]; exact h.shaped

theorem journaled_step (ha : Attached name a ks) (h : Journaled opening start ks) {ev : Event}
    (hev : ev.isTraffic = true) : Journaled opening start (ks.step ev).1 := by
  cases ev with
  | command c =>
      obtain ⟨i, hi⟩ := Option.isSome_iff_exists.mp h.isOpen
      -- the records of a command reach the store, the counter and the text alike
      have htext := text_command (ha.appends none) c
      rw [if_pos h.isOpen, h.replaying, loggedRecords_false] at htext
      rw [step_command (ha.appends none), DB.execute_eq h.replaying, Log.appendAll_of_open hi] at *
      exact {
        isOpen := h.isOpen
        replaying := h.replaying
        text_eq := by
          rw [htext, h.text_eq, List.append_assoc, ← logLines_append]
        store_eq := by
          show replay ks.db.store (commandRecords (tokens c)) = _
          rw [h.store_eq, ← replay_append]
        dirty_eq := by
          show (if ks.db.replaying then ks.db.dirty else _) = _
          rw [h.replaying, if_neg Bool.false_ne_true, h.dirty_eq, h.store_eq, ← changes_append]
        shaped := by
          intro r hr
          rcases List.mem_append.mp hr with hr | hr
          · exact h.shaped r hr
          · exact recordShape_of_mem_commandRecords (shaped_tokens c) r hr }
  | swap =>
      exact h.of_eq (Log.flusherSwap_logfile _) (Log.flusherSwap_appended _) rfl rfl rfl
        (text_swap ks)
  | write => exact h.of_eq rfl rfl rfl rfl rfl (text_write ha)
  | call c => exact absurd hev Bool.false_ne_true
  | clearData => exact absurd hev Bool.false_ne_true
  | shutdown env => exact absurd hev Bool.false_ne_true

/-- **The log mirrors the store** in every run of traffic. -/
theorem journaled_run (ha : Attached name a ks) (h : Journaled opening start ks)
    {es : List Event} (hes : ∀ e ∈ es, e.isTraffic = true) :
    Journaled opening start (ks.run es) :=
  (run_induction (P := fun ks => Attached name a ks ∧ Journaled opening start ks)
    (fun _ e he hks => ⟨attached_step hks.1 e, journaled_step hks.1 hks.2 (hes e he)⟩)
    ⟨ha, h⟩).2

/-- A keyspace that is constructed over an empty file starts with nothing. -/
theorem journaled_new {fs' : Files} {env : Env} {db : DB} {i : Ino}
    (hreplaying : env.replaying = false) (hdb : db = DB.loaded env name i [])
    (hread : fs'.read (aofPath name) = some []) : Journaled [] ∅ ⟨fs', db⟩ := by
  subst hdb
  exact {
    isOpen := rfl
    replaying := hreplaying
    text_eq := by
      show (fs'.read (aofPath name)).getD [] ++ _ = _
      rw [hread]
      rfl
    store_eq := rfl
    dirty_eq := rfl
    shaped := fun r hr => absurd hr List.not_mem_nil }

end Keyspace

end Taproot
