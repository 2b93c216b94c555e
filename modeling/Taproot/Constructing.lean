import Taproot.Keyspace

/-!
# Taproot.Constructing

What the **constructors** leave behind: in the log, and in the two members that
they do not always set.

Replaying a line that a keyspace has written appends nothing. But the loader
accepts every command, and the two batch commands append whether the keyspace
is replaying or not (`loading_silent_iff`). The flag is lowered after each line
and nowhere else, so a file without a line leaves it as memory had it; the
constructor that is given a store sets neither the flag nor the counter of
changes (`constructed_iff`).
-/

namespace Taproot

open Posix Journal

namespace Keyspace

variable {name a : Bytes} {ks : Keyspace}

/-! ### What loading appends -/

theorem text_loaded {fs fs' : Files} {env : Env} {db : DB}
    (hnew : DB.new env fs name = (fs', .ok db)) :
    db.logger.appended = DB.replayedRecords (getlines ((fs.read (aofPath name)).getD [])) ∧
      db.logger.pending = logLines db.logger.appended ∧
      content ⟨fs', db⟩ = (fs.read (aofPath name)).getD [] := by
  obtain ⟨a, i, -, -, rfl, -, hread⟩ := new_inv hnew
  refine ⟨rfl, rfl, ?_⟩
  show (fs'.read (aofPath name)).getD [] = _
  rw [hread]
  rfl

/-- Closed with no command issued, a keyspace leaves what loading appended at
the end of its file. -/
theorem content_closed {fs fs' : Files} {env : Env} {db : DB}
    (haof : fs.resolve (aofPath name) = some a) (hdb : fs.resolve (dbPath name) ≠ some a)
    (hnew : DB.new env fs name = (fs', .ok db)) {es : List Event}
    (hes : ∀ e ∈ es, e.isFlush = true) (env₁ : Env) :
    ((run ⟨fs', db⟩ es).step (.shutdown env₁)).1.content =
      (fs.read (aofPath name)).getD [] ++ logLines db.logger.appended := by
  obtain ⟨-, hpending, hcontent⟩ := text_loaded hnew
  obtain ⟨a', i, hp, hfs, hloaded, ha, -⟩ := new_inv hnew
  obtain rfl : a = a' := Option.some.inj (haof.symm.trans hp)
  obtain ⟨htext, -, hdirty⟩ := flush_run ha hes
  have hresolve : (run ⟨fs', db⟩ es).fs.resolve = fs.resolve := by
    rw [run_resolve, hfs, FS.openAppend_resolve]
  have hskips : Log.Skips (run ⟨fs', db⟩ es).db.store ((run ⟨fs', db⟩ es).db.dirty % SIZE_MOD) := by
    refine Or.inl ?_
    rw [hdirty, hloaded]
    exact le_rfl
  rw [content_shutdown_of_skips (attached_run ha es) (by rw [hresolve]; exact hdb) env₁ hskips,
    htext, text, hpending, hcontent]

/-- **Loading leaves no trace in the log** exactly if no line of the file is a
batch command that is accepted. -/
theorem loading_silent_iff {fs fs' : Files} {env : Env} {db : DB}
    (haof : fs.resolve (aofPath name) = some a) (hdb : fs.resolve (dbPath name) ≠ some a)
    (hnew : DB.new env fs name = (fs', .ok db)) :
    (db.dirty = 0 ∧ db.logger.appended = [] ∧ db.logger.pending = [] ∧
      content ⟨fs', db⟩ = (fs.read (aofPath name)).getD [] ∧
      ∀ es, (∀ e ∈ es, e.isFlush = true) → ∀ env₁,
        ((run ⟨fs', db⟩ es).step (.shutdown env₁)).1.content = (fs.read (aofPath name)).getD []) ↔
    ∀ line ∈ getlines ((fs.read (aofPath name)).getD []),
      isBatch (tokens line) = true → ¬IsMutation (tokens line) := by
  obtain ⟨happended, hpending, hcontent⟩ := text_loaded hnew
  rw [← DB.replayedRecords_eq_nil_iff, ← happended]
  constructor
  · exact fun h => h.2.1
  · intro hnil
    refine ⟨?_, hnil, by rw [hpending, hnil]; rfl, hcontent, fun es hes env₁ => ?_⟩
    · obtain ⟨-, -, -, -, rfl, -⟩ := new_inv hnew
      rfl
    · rw [content_closed haof hdb hnew hes, hnil, logLines_nil, List.append_nil]

/-- Lines that a keyspace has written are loaded silently. -/
theorem loading_silent_written :
    ∃ fs' db, DB.new Env.calm (savedFiles (ascii "a") (ascii "put k 1\ndel k\n")) (ascii "a") =
        (fs', .ok db) ∧ db.logger.pending = [] := by
  have hp := holds_savedFiles (ascii "a") (ascii "put k 1\ndel k\n")
  have hnew := new_savedFiles Env.calm (ascii "a") (ascii "put k 1\ndel k\n")
  refine ⟨_, _, hnew, ((loading_silent_iff hp.aof hp.db hnew).mpr ?_).2.2.1⟩
  rw [read_savedFiles]
  decide

/-- A batch command that was written into the file by hand is logged once more,
and the file has grown when the keyspace is closed. -/
theorem not_loading_silent :
    ∃ fs' db, DB.new Env.calm (savedFiles (ascii "a") (ascii "mdel k l\n")) (ascii "a") =
        (fs', .ok db) ∧ db.logger.logBuffer = ascii "del k\ndel l\n" ∧
      (step ⟨fs', db⟩ (.shutdown Env.calm)).1.content = ascii "mdel k l\ndel k\ndel l\n" := by
  have hp := holds_savedFiles (ascii "a") (ascii "mdel k l\n")
  have hnew := new_savedFiles Env.calm (ascii "a") (ascii "mdel k l\n")
  have hclosed := content_closed hp.aof hp.db hnew (fun e he => absurd he List.not_mem_nil) Env.calm
  rw [read_savedFiles, run_nil] at hclosed
  refine ⟨_, _, hnew, ?_, hclosed.trans ?_⟩
  · show logLines (DB.replayedRecords (getlines (ascii "mdel k l\n"))) = _
    decide
  · show _ ++ logLines (DB.replayedRecords (getlines (ascii "mdel k l\n"))) = _
    decide

/-! ### What memory held before -/

/-- The two constructors of a `DB`. -/
inductive Construction
  | load
  | given (store : Store)

/-- Constructing a `DB` where the members that are not set hold
`env.replaying` and `dirty`. -/
def Construction.construct (env : Env) (dirty : Nat) (fs : Files) (name : Bytes) :
    Construction → Files × Except Fault DB
  | load => DB.new env fs name
  | given store => DB.newWith env dirty fs name store

/-- The members come out set: by a line of the file, or by luck. -/
def Construction.Sets (env : Env) (dirty : Nat) (content : Bytes) : Construction → Prop
  | load => getlines content ≠ [] ∨ env.replaying = false
  | given _ => env.replaying = false ∧ dirty = 0

/-- The puts and the successful deletions that a run executes. -/
def executed : Keyspace → List Event → Nat
  | _, [] => 0
  | ks, e :: es => changes ks.db.store e.records + executed (ks.step e).1 es

/-- The flag stays down, and the counter counts. -/
theorem counting_run (ha : Attached name a ks) (h : ks.db.replaying = false) (es : List Event) :
    (ks.run es).db.replaying = false ∧ (ks.run es).db.dirty = ks.db.dirty + executed ks es := by
  induction es generalizing ks with
  | nil => exact ⟨h, rfl⟩
  | cons e es ih =>
      obtain ⟨hflag, hcount⟩ := ih (attached_step ha e) ((step_replaying ks e).trans h)
      rw [run_cons]
      refine ⟨hflag, ?_⟩
      rw [hcount, step_dirty h (ha.appends none), executed, Nat.add_assoc]

theorem construct_sets_iff {c : Construction} {env : Env} {dirty : Nat} {fs fs' : Files} {db : DB}
    (hnew : c.construct env dirty fs name = (fs', .ok db)) :
    db.replaying = false ∧ db.dirty = 0 ↔
      c.Sets env dirty ((fs.read (aofPath name)).getD []) := by
  cases c with
  | load =>
      obtain ⟨a, i, -, -, rfl, -⟩ := new_inv hnew
      show (if getlines _ = [] then env.replaying else false) = false ∧ 0 = 0 ↔ _
      rw [Construction.Sets]
      split
      · next hnil => simp [hnil]
      · next hlines => simp [hlines]
  | given store =>
      rw [Construction.construct, DB.newWith] at hnew
      split at hnew
      · exact absurd (Prod.mk.inj hnew).2 (by simp)
      · obtain ⟨-, hdb⟩ := Prod.mk.inj hnew
        rw [← Except.ok.inj hdb]
        exact Iff.rfl

/-- Both constructors leave a keyspace attached. -/
theorem attached_construct {c : Construction} {env : Env} {dirty : Nat} {fs fs' : Files} {db : DB}
    (hnew : c.construct env dirty fs name = (fs', .ok db)) :
    fs'.resolve = fs.resolve ∧ ∃ a, Attached name a ⟨fs', db⟩ := by
  cases c with
  | load =>
      obtain ⟨a, i, -, hfs, -, ha, -⟩ := new_inv hnew
      exact ⟨by rw [hfs, FS.openAppend_resolve], a, ha⟩
  | given store =>
      rw [Construction.construct, DB.newWith, Log.new] at hnew
      have hresolve := FS.openAppend_resolve fs (aofPath name)
      have hino := FS.openAppend_snd fs (aofPath name)
      split at hnew
      · exact absurd (Prod.mk.inj hnew).2 (by simp)
      · next fs₁ logger heq =>
          split at heq
          · exact absurd (Prod.mk.inj heq).2 (by simp)
          · next fs₂ i hopen =>
              obtain ⟨rfl, hlogger⟩ := Prod.mk.inj heq
              obtain ⟨rfl, hdb⟩ := Prod.mk.inj hnew
              obtain rfl := Except.ok.inj hlogger
              obtain rfl := Except.ok.inj hdb
              rw [hopen] at hresolve hino
              obtain ⟨a, ha, hdir⟩ := Option.bind_eq_some_iff.mp hino.symm
              exact ⟨hresolve, a, {
                aof := ha
                present := Option.isSome_iff_exists.mpr ⟨i, hdir⟩
                name_eq := rfl
                keyspaceName_eq := rfl
                logFilepath_eq := rfl
                dbFilepath_eq := rfl
                stream := fun j hj => hdir.trans hj
                sound := Log.sound_opened name i }⟩

/-- Where they come out set, a `DB` does not depend on what memory held. -/
theorem construct_congr {c : Construction} {env env₂ : Env} {dirty dirty₂ : Nat}
    {fs : Files} (h : c.Sets env dirty ((fs.read (aofPath name)).getD []))
    (h₂ : c.Sets env₂ dirty₂ ((fs.read (aofPath name)).getD [])) :
    c.construct env₂ dirty₂ fs name = c.construct env dirty fs name := by
  cases c with
  | load =>
      cases hp : fs.resolve (aofPath name) with
      | none => exact (DB.new_eq_error env₂ hp).trans (DB.new_eq_error env hp).symm
      | some a =>
          obtain ⟨i, hi, hnew⟩ := DB.new_eq env hp
          obtain ⟨j, hj, hnew₂⟩ := DB.new_eq env₂ hp
          obtain rfl : i = j := Option.some.inj (hi.symm.trans hj)
          refine hnew₂.trans (Eq.trans ?_ hnew.symm)
          have hflag : (if getlines ((fs.read (aofPath name)).getD []) = [] then env₂.replaying
              else false) = if getlines ((fs.read (aofPath name)).getD []) = [] then env.replaying
              else false := by
            split
            · next hnil => rw [h.resolve_left (absurd hnil), h₂.resolve_left (absurd hnil)]
            · rfl
          rw [DB.loaded, DB.loaded, hflag]
  | given store =>
      rw [Construction.construct, Construction.construct, DB.newWith, DB.newWith, h.1, h.2, h₂.1,
        h₂.2]

end Keyspace

end Taproot
