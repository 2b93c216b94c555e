import Taproot.Log

/-!
# Taproot.Paths

The three path strings of a keyspace name, and when two of them are the same
string. The temporary path of one name is the path of the log of another: the
name with `_temp` at its end.
-/

namespace Taproot

/-- The last characters of the two file names differ. -/
theorem dbPath_ne_aofPath (name name' : Bytes) : dbPath name ≠ aofPath name' := by
  intro h
  have hdb : (dbPath name).getLast? = some 98 := by
    rw [dbPath, List.getLast?_append, show (ascii ".db").getLast? = some 98 from by decide]
    rfl
  have haof : (aofPath name').getLast? = some 102 := by
    rw [aofPath, List.getLast?_append, show (ascii ".aof").getLast? = some 102 from by decide]
    rfl
  rw [h, haof] at hdb
  exact absurd hdb (by decide)

theorem aofPath_inj {name name' : Bytes} : aofPath name = aofPath name' ↔ name = name' := by
  constructor
  · intro h
    exact List.append_cancel_left (List.append_cancel_right h)
  · exact congrArg aofPath

theorem dbPath_inj {name name' : Bytes} : dbPath name = dbPath name' ↔ name = name' := by
  constructor
  · intro h
    exact List.append_cancel_left (List.append_cancel_right h)
  · exact congrArg dbPath

theorem tempPath_eq (name : Bytes) : tempPath name = aofPath (name ++ ascii "_temp") := by
  rw [tempPath, aofPath, show ascii "_temp.aof" = ascii "_temp" ++ ascii ".aof" from by decide]
  simp

end Taproot
