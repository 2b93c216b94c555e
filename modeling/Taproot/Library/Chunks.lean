import Mathlib.Data.List.Infix
import Taproot.Library.Words

/-!
# Taproot.Library.Chunks

Reading from a **stream that arrives in chunks**. `readUntil` takes chunks
until the buffer contains a delimiter; the buffer may then hold more than that.

`firstLines` is the reader that begins every line with a buffer of its own, and
so drops what came in one chunk with the end of the line before. It delivers
the lines of the stream exactly if no chunk goes on after a delimiter that is
not the last of the stream (`firstLines_eq_frames_iff`).
-/

namespace Chunks

open Words

variable {α : Type*} [DecidableEq α]

/-- Append chunks to `buffer` until it contains `delim`. Returns the buffer and
the chunks that are left; `none` if the stream ends first. -/
def readUntil (delim : List α) : List α → List (List α) → Option (List α × List (List α))
  | buffer, [] => if delim <:+: buffer then some (buffer, []) else none
  | buffer, chunk :: chunks =>
    if delim <:+: buffer then some (buffer, chunk :: chunks)
    else readUntil delim (buffer ++ chunk) chunks

/-- A buffer without the delimiter needs a chunk. -/
theorem readUntil_length_lt {delim buffer buffer' : List α} {chunks rest : List (List α)}
    (hbuffer : ¬delim <:+: buffer)
    (h : readUntil delim buffer chunks = some (buffer', rest)) : rest.length < chunks.length := by
  have hle : ∀ (chunks : List (List α)) (buffer : List α),
      readUntil delim buffer chunks = some (buffer', rest) → rest.length ≤ chunks.length := by
    intro chunks
    induction chunks with
    | nil =>
        intro buffer h
        rw [readUntil] at h
        split at h
        · rw [← (Prod.mk.inj (Option.some.inj h)).2]
        · exact absurd h (by simp)
    | cons chunk chunks ih =>
        intro buffer h
        rw [readUntil] at h
        split at h
        · rw [← (Prod.mk.inj (Option.some.inj h)).2]
        · exact Nat.le_succ_of_le (ih _ h)
  cases chunks with
  | nil =>
      rw [readUntil, if_neg hbuffer] at h
      exact absurd h (by simp)
  | cons chunk chunks =>
      rw [readUntil, if_neg hbuffer] at h
      exact Nat.lt_succ_of_le (hle chunks _ h)

variable {nl : α}

/-- The first line of a buffer. -/
def firstLine (nl : α) (buffer : List α) : List α := ((getline nl buffer).map Prod.fst).getD []

theorem firstLine_eq {a : List α} (ha : nl ∉ a) (b : List α) :
    firstLine nl (a ++ nl :: b) = a := by
  rw [firstLine, getline_line ha]
  rfl

/-- The reader that takes one line from each buffer, chunk by chunk. -/
def firstLines (nl : α) : List α → List (List α) → List (List α)
  | _, [] => []
  | buffer, chunk :: chunks =>
    if nl ∈ chunk then firstLine nl (buffer ++ chunk) :: firstLines nl [] chunks
    else firstLines nl (buffer ++ chunk) chunks

/-- Each of its rounds is one `readUntil` with an empty buffer. -/
theorem firstLines_eq_readUntil {buffer : List α} (hbuffer : nl ∉ buffer) (chunks : List (List α)) :
    firstLines nl buffer chunks = match readUntil [nl] buffer chunks with
      | none => []
      | some (buffer, rest) => firstLine nl buffer :: firstLines nl [] rest := by
  induction chunks generalizing buffer with
  | nil => simp [firstLines, readUntil, List.singleton_infix_iff, hbuffer]
  | cons chunk chunks ih =>
      have hnot : ¬[nl] <:+: buffer := by rwa [List.singleton_infix_iff]
      rw [firstLines, readUntil, if_neg hnot]
      by_cases hchunk : nl ∈ chunk
      · rw [if_pos hchunk]
        have hmem : [nl] <:+: buffer ++ chunk := by
          rw [List.singleton_infix_iff]
          exact List.mem_append_right buffer hchunk
        cases chunks with
        | nil => rw [readUntil, if_pos hmem]
        | cons chunk' chunks => rw [readUntil, if_pos hmem]
      · rw [if_neg hchunk]
        exact ih (by simp [hbuffer, hchunk])

/-- No chunk goes on after a delimiter while another one is still to come. -/
def Framed (nl : α) : List (List α) → Prop
  | [] => True
  | chunk :: chunks =>
    (∀ a b, chunk = a ++ nl :: b → b ≠ [] → nl ∉ b ++ chunks.flatten) ∧ Framed nl chunks

omit [DecidableEq α] in
theorem framed_of_not_mem {chunks : List (List α)} (h : nl ∉ chunks.flatten) :
    Framed nl chunks := by
  induction chunks with
  | nil => trivial
  | cons chunk chunks ih =>
      rw [List.flatten_cons, List.mem_append, not_or] at h
      refine ⟨fun a b hchunk _ => absurd ?_ h.1, ih h.2⟩
      rw [hchunk]
      exact List.mem_append_right a List.mem_cons_self

omit [DecidableEq α] in
/-- Only the first delimiter of a chunk matters. -/
theorem forall_split_iff {a b rest : List α} (ha : nl ∉ a) :
    (∀ a' b', a ++ nl :: b = a' ++ nl :: b' → b' ≠ [] → nl ∉ b' ++ rest) ↔
      (b ≠ [] → nl ∉ b ++ rest) := by
  refine ⟨fun h => h a b rfl, fun h a' b' heq hb' => ?_⟩
  rcases List.append_eq_append_iff.mp heq with ⟨c, rfl, hc⟩ | ⟨c, rfl, hc⟩
  · cases c with
    | nil =>
        obtain rfl : b = b' := (List.cons.inj hc).2
        exact h hb'
    | cons x c =>
        -- a later delimiter in the chunk is one that the first does not allow
        have hb : b = c ++ nl :: b' := (List.cons.inj hc).2
        exact absurd (by simp [hb]) (h (by simp [hb]))
  · cases c with
    | nil =>
        obtain rfl : b' = b := (List.cons.inj hc).2
        exact h hb'
    | cons x c =>
        obtain rfl : nl = x := (List.cons.inj hc).1
        exact absurd (by simp) ha

/-- The reader delivers at most what the stream has. -/
theorem extent_firstLines_le {buffer : List α} (hbuffer : nl ∉ buffer) (chunks : List (List α)) :
    extent (firstLines nl buffer chunks) ≤ extent (frames nl (buffer ++ chunks.flatten)) := by
  induction chunks generalizing buffer with
  | nil => exact Nat.zero_le _
  | cons chunk chunks ih =>
      rw [firstLines, List.flatten_cons, ← List.append_assoc]
      by_cases hchunk : nl ∈ chunk
      · obtain ⟨a, b, rfl, ha⟩ := exists_first_delimiter hchunk
        have hline : nl ∉ buffer ++ a := by simp [hbuffer, ha]
        rw [if_pos hchunk, ← List.append_assoc, firstLine_eq hline, List.append_assoc,
          List.cons_append, frames_cons_line hline, extent, extent]
        have hrest : extent (firstLines nl [] chunks) ≤ extent (frames nl chunks.flatten) :=
          ih List.not_mem_nil
        -- `b`, the rest of the chunk, is not seen again
        have hcut : extent (frames nl chunks.flatten) ≤ extent (frames nl (b ++ chunks.flatten)) :=
          extent_frames_append_le b chunks.flatten
        omega
      · rw [if_neg hchunk]
        exact ih (by simp [hbuffer, hchunk])

/-- **The lines of the stream, exactly if it is framed.** -/
theorem firstLines_eq_frames_iff {buffer : List α} (hbuffer : nl ∉ buffer)
    (chunks : List (List α)) :
    firstLines nl buffer chunks = frames nl (buffer ++ chunks.flatten) ↔ Framed nl chunks := by
  induction chunks generalizing buffer with
  | nil => simp [firstLines, Framed, frames_of_not_mem hbuffer]
  | cons chunk chunks ih =>
      rw [firstLines, List.flatten_cons, ← List.append_assoc, Framed]
      by_cases hchunk : nl ∈ chunk
      · obtain ⟨a, b, rfl, ha⟩ := exists_first_delimiter hchunk
        have hline : nl ∉ buffer ++ a := by simp [hbuffer, ha]
        rw [if_pos hchunk, ← List.append_assoc, firstLine_eq hline, List.append_assoc,
          List.cons_append, frames_cons_line hline, List.cons.injEq, and_iff_right rfl,
          forall_split_iff ha]
        have hrest : firstLines nl [] chunks = frames nl chunks.flatten ↔ Framed nl chunks :=
          ih List.not_mem_nil
        by_cases hb : b = []
        · subst hb
          rw [List.nil_append, hrest]
          exact (and_iff_right fun h => absurd rfl h).symm
        by_cases hmem : nl ∈ b ++ chunks.flatten
        · -- what is dropped is missing from what is delivered later
          refine iff_of_false (fun heq => ?_) fun h => h.1 hb hmem
          have hle : extent (firstLines nl [] chunks) ≤ extent (frames nl chunks.flatten) :=
            extent_firstLines_le List.not_mem_nil chunks
          have hlt := extent_frames_append_lt hb hmem
          rw [heq] at hle
          exact absurd hlt (Nat.not_lt.mpr hle)
        -- no line is left, neither here nor in what is dropped
        · have hflat : nl ∉ chunks.flatten := fun h => hmem (List.mem_append_right b h)
          have hframed := framed_of_not_mem hflat
          refine iff_of_true ?_ ⟨fun _ => hmem, hframed⟩
          rw [hrest.mpr hframed, frames_of_not_mem hflat, frames_of_not_mem hmem]
      · rw [if_neg hchunk, ih (by simp [hbuffer, hchunk])]
        refine (and_iff_right fun a b heq _ => absurd ?_ hchunk).symm
        rw [heq]
        exact List.mem_append_right a List.mem_cons_self

end Chunks
