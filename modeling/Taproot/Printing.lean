import Taproot.Compacting
import Taproot.Library.Delimiters
import Taproot.Server
import Taproot.Shapes

/-!
# Taproot.Printing

Which texts of the state a **reply** prints, and when the end mark of a frame
is among them.

A reply is put together from texts of the program, which do not hold the mark,
and from names, keys, values and a message of the operating system, which may
(`printed`). All but the message stand in lines, so a mark in the reply is a mark
in one of these texts (`infix_reply_iff`).
-/

namespace Taproot

open Posix Journal Chunks

/-- What ends a reply on the wire. -/
def END : Bytes := ascii "END\n"

theorem END_ne_nil : END ≠ [] := by decide
theorem newline_notMem_END_dropLast : NEWLINE ∉ END.dropLast := by decide

/-- A text without a newline holds no end mark. -/
theorem not_END_isInfix {a : Bytes} (h : NEWLINE ∉ a) : ¬END <:+: a :=
  fun hinside => h (hinside.mem (by decide))

namespace Server

variable {env env' : Env} {s : Server} {input name : Bytes}

/-- The compaction of a shutdown throws. -/
abbrev RenameFails (env : Env) (s : Server) : Prop :=
  Log.RenameFails env s.fs s.db.logger s.db.store (s.db.dirty % SIZE_MOD)

/-- What a shutdown throws: the error of the rename, or that of the compression. -/
theorem shutdown_snd (env : Env) (s : Server) :
    if s.RenameFails env then
      (s.db.shutdown env s.fs).2.2 = .error (.exception env.renameError)
    else ∀ what, (s.db.shutdown env s.fs).2.2 = .error (.exception what) →
      what = ascii "Cannot compress data." := by
  rw [DB.shutdown_snd]
  split
  · next hfails => rw [if_neg hfails.2.1]
  · intro what
    split
    · exact fun h => absurd h (by simp)
    · exact fun h => Fault.exception.inj (Log.writeBinarySnapshot_error h)

/-! ### Texts of the state -/

/-- The texts of the state that the reply to a request prints, each as far as an
end mark in the reply could lie in it. -/
def printed (env : Env) (s : Server) (input : Bytes) : List Bytes :=
  if input = ascii "stats" then
    [s.db.name]
  else
    match tokens input with
    | [] => []
    | op :: args =>
      if op = ascii "use" ∧ args.length = 1 then
        if s.RenameFails env then [env.renameError] else []
      else if input = ascii "show" then
        s.db.name :: (env.iteration.entries s.db.store).map fun item =>
          item.1 ++ ascii ": " ++ item.2 ++ ascii "\n"
      else if input = ascii "keys" then
        s.db.name :: (env.iteration.entries s.db.store).map fun item => item.1 ++ ascii "\n"
      else if input = ascii "values" then
        s.db.name :: (env.iteration.entries s.db.store).map fun item => item.2 ++ ascii "\n"
      else
        (s.db.answer (op :: args)).map fun value => value ++ ascii "\n"

/-- A mark in a printed list is in one of its lines. -/
theorem infix_printVector_iff (vector : List Bytes) :
    END <:+: printVector vector ↔ ∃ elem ∈ vector, END <:+: elem ++ [NEWLINE] := by
  have hlines := infix_flatMap_append_iff newline_notMem_END_dropLast (fun elem : Bytes => elem)
    vector []
  rw [List.append_nil, List.infix_nil, or_iff_left END_ne_nil] at hlines
  exact hlines

/-- A mark in a display is in the name of the keyspace or in one of its lines. -/
theorem infix_framed_iff {β : Type} {kind : Bytes} (hkind : NEWLINE ∉ kind)
    (name : Bytes) (f : β → Bytes) (xs : List β) :
    END <:+: DB.framed (kind ++ ascii "'" ++ name ++ ascii "'\n" ++
        xs.flatMap fun x => f x ++ ascii "\n") ↔
      END <:+: name ∨ ∃ x ∈ xs, END <:+: f x ++ [NEWLINE] := by
  -- the mark ends in a newline and has no other, so it lies in one piece
  have hpieces : DB.framed (kind ++ ascii "'" ++ name ++ ascii "'\n" ++
      xs.flatMap fun x => f x ++ ascii "\n") =
      ascii "\n============" ++ [NEWLINE] ++ (kind ++ [39] ++ (name ++ [39] ++ ([] ++ [NEWLINE] ++
        (xs.flatMap (fun x => f x ++ [NEWLINE]) ++ ascii "============\n")))) := by
    simp [DB.framed, ascii, NEWLINE]
  have hopening : ¬END <:+: ascii "\n============" ++ [NEWLINE] := by decide
  have hquote : ¬END <:+: kind ++ [39] := by
    refine not_END_isInfix ?_
    rw [List.mem_append, not_or]
    exact ⟨hkind, by decide⟩
  have hnewline : ¬END <:+: ([] : Bytes) ++ [NEWLINE] := by decide
  have hclosing : ¬END <:+: ascii "============\n" := by decide
  rw [hpieces, infix_append_iff_of_last newline_notMem_END_dropLast, or_iff_right hopening,
    infix_append_iff_of_last (by decide), or_iff_right hquote, infix_append_iff_of_last (by decide),
    infix_concat_iff_of_notMem END_ne_nil (by decide) name,
    infix_append_iff_of_last newline_notMem_END_dropLast, or_iff_right hnewline,
    infix_flatMap_append_iff newline_notMem_END_dropLast, or_iff_left hclosing]

theorem infix_display_iff (env : Env) (db : DB) :
    END <:+: db.display env ↔ END <:+: db.name ∨ ∃ item ∈ env.iteration.entries db.store,
      END <:+: item.1 ++ ascii ": " ++ item.2 ++ [NEWLINE] := by
  have hkind : ascii "| Key-values for keyspace: '" =
      ascii "| Key-values for keyspace: " ++ ascii "'" := by simp [ascii]
  rw [DB.display, hkind]
  exact infix_framed_iff (by decide : NEWLINE ∉ ascii "| Key-values for keyspace: ") _ _ _

theorem infix_displayKeys_iff (env : Env) (db : DB) :
    END <:+: db.displayKeys env ↔ END <:+: db.name ∨
      ∃ item ∈ env.iteration.entries db.store, END <:+: item.1 ++ [NEWLINE] := by
  have hkind : ascii "| Keys for keyspace: '" =
      ascii "| Keys for keyspace: " ++ ascii "'" := by simp [ascii]
  rw [DB.displayKeys, hkind]
  exact infix_framed_iff (by decide : NEWLINE ∉ ascii "| Keys for keyspace: ") _ _ _

theorem infix_displayValues_iff (env : Env) (db : DB) :
    END <:+: db.displayValues env ↔ END <:+: db.name ∨
      ∃ item ∈ env.iteration.entries db.store, END <:+: item.2 ++ [NEWLINE] := by
  have hkind : ascii "| Values for keyspace: '" =
      ascii "| Values for keyspace: " ++ ascii "'" := by simp [ascii]
  rw [DB.displayValues, hkind]
  exact infix_framed_iff (by decide : NEWLINE ∉ ascii "| Values for keyspace: ") _ _ _

/-- Decimal digits are not letters. -/
theorem notMem_ascii_toString (n : Nat) : 69 ∉ ascii (toString n) :=
  fun hmem => absurd (isdigit_of_mem_toString hmem) (by decide)

theorem infix_displayStats_iff (env : Env) (db : DB) :
    END <:+: db.displayStats env ↔ END <:+: db.name := by
  have htext : ∃ n : Nat, db.displayStats env = DB.framed (ascii "| Stats for keyspace: " ++
      ascii "'" ++ db.name ++ ascii "'\n" ++
      [ascii "Total keys: " ++ ascii (toString db.store.entries.card),
        ascii "Total bytes: " ++ ascii (toString n)].flatMap fun x => x ++ ascii "\n") := by
    have hkind : ascii "| Stats for keyspace: '" =
        ascii "| Stats for keyspace: " ++ ascii "'" := by simp [ascii]
    refine ⟨(env.iteration.entries db.store).foldl (fun totalBytes item =>
      (totalBytes + (item.1.length + item.2.length)) % SIZE_MOD) 0, ?_⟩
    rw [DB.displayStats, hkind]
    simp only [List.flatMap_cons, List.flatMap_nil, List.append_assoc, List.append_nil]
  obtain ⟨n, htext⟩ := htext
  rw [htext, infix_framed_iff (by decide)]
  refine or_iff_left ?_
  rintro ⟨x, hx, hinside⟩
  have hletter : (69 : UInt8) ∈ x ++ [NEWLINE] := hinside.mem (by decide)
  have hline {label : Bytes} (hlabel : 69 ∉ label) (m : Nat) :
      69 ∉ label ++ ascii (toString m) ++ [NEWLINE] := by
    rw [List.mem_append, List.mem_append, not_or, not_or]
    exact ⟨⟨hlabel, notMem_ascii_toString m⟩, by decide⟩
  cases hx with
  | head => exact hline (by decide) _ hletter
  | tail _ hx =>
      rw [List.mem_singleton.mp hx] at hletter
      exact hline (by decide) _ hletter

/-! ### Replies to a switch -/

theorem infix_switchError_iff (hname : NEWLINE ∉ name) (what : Bytes) :
    END <:+: switchError name what ↔ END <:+: what := by
  have hpieces : switchError name what =
      ascii "ERR couldn't switch to keyspace " ++ name ++ ascii ":" ++ [SPACE] ++ what := by
    simp [switchError, ascii, SPACE]
  rw [hpieces, infix_append_iff_of_last (by decide)]
  refine or_iff_right (not_END_isInfix ?_)
  have hliteral : NEWLINE ∉ ascii "ERR couldn't switch to keyspace " := by decide
  have hcolon : NEWLINE ∉ ascii ":" ++ [SPACE] := by decide
  rw [List.append_assoc]
  simp only [List.mem_append, not_or] at hcolon ⊢
  exact ⟨⟨hliteral, hname⟩, hcolon⟩

/-- The reply to a switch holds a mark only if it reports a failed rename. -/
theorem infix_useKeyspace_iff (hname : NEWLINE ∉ name) :
    (∃ reply, (s.useKeyspace env env' name).2 = .ok reply ∧ END <:+: reply) ↔
      s.RenameFails env ∧ END <:+: env.renameError := by
  have hshutdown := s.shutdown_snd env
  -- every other reply is free of newlines
  have hplain {reply : Bytes} {res : Except Fault Bytes} (hreply : NEWLINE ∉ reply)
      (hres : ∀ reply', res = .ok reply' → reply' = reply) :
      ¬∃ reply, res = .ok reply ∧ END <:+: reply :=
    fun ⟨reply', h, hinside⟩ => not_END_isInfix (hres reply' h ▸ hreply) hinside
  -- the rename comes first, and its error is the only text that can have a newline
  by_cases hfails : s.RenameFails env
  · rw [if_pos hfails] at hshutdown
    rw [and_iff_right hfails, ← infix_switchError_iff hname env.renameError, useKeyspace]
    split
    · next what heq =>
        rw [heq] at hshutdown
        obtain rfl := Fault.exception.inj (Except.error.inj hshutdown)
        simp
    · next e hne heq =>
        rw [heq] at hshutdown
        exact absurd (Except.error.inj hshutdown) (hne _)
    · next heq =>
        rw [heq] at hshutdown
        exact absurd hshutdown (by simp)
  · rw [if_neg hfails] at hshutdown
    refine iff_of_false ?_ fun h => hfails h.1
    have herror {what : Bytes} (hwhat : NEWLINE ∉ what) : NEWLINE ∉ switchError name what := by
      rw [switchError]
      simp only [List.mem_append, not_or]
      exact ⟨⟨⟨by decide, hname⟩, by decide⟩, hwhat⟩
    unfold useKeyspace
    split
    · next what heq =>
        rw [heq] at hshutdown
        obtain rfl := hshutdown _ rfl
        exact hplain (herror (by decide)) fun _ h => (Except.ok.inj h).symm
    · next heq => simp
    · split
      · next what heq =>
          have hwhat := DB.new_error (congrArg Prod.snd heq)
          obtain rfl := Fault.exception.inj hwhat
          exact hplain (herror (by decide)) fun _ h => (Except.ok.inj h).symm
      · simp
      · split
        · simp
        · refine hplain ?_ fun _ h => (Except.ok.inj h).symm
          simp only [List.mem_append, not_or]
          exact ⟨by decide, hname⟩

/-! ### Replies to any request -/

/-- The lines of a display, as `printed` lists them. -/
theorem exists_mem_lines_iff {β : Type} (f : β → Bytes) (xs : List β) :
    (∃ text ∈ xs.map fun x => f x ++ ascii "\n", END <:+: text) ↔
      ∃ x ∈ xs, END <:+: f x ++ [NEWLINE] := by
  simp only [List.mem_map, exists_exists_and_eq_and]
  rfl

/-- **The end mark is in a reply** exactly if it is in one of the texts of the state
that the reply prints. -/
theorem infix_reply_iff (env env' : Env) (s : Server) (input : Bytes) :
    (∃ reply, (s.dispatcher env env' input).2 = .ok reply ∧ END <:+: reply) ↔
      ∃ text ∈ s.printed env input, END <:+: text := by
  have hok (text : Bytes) :
      (∃ reply, (Except.ok text : Except Fault Bytes) = .ok reply ∧ END <:+: reply) ↔
        END <:+: text := by
    simp
  rw [dispatcher, tokenize_eq, printed]
  dsimp only
  by_cases hstats : input = ascii "stats"
  · rw [if_pos hstats, if_pos hstats, hok, infix_displayStats_iff]
    simp
  rw [if_neg hstats, if_neg hstats]
  by_cases hclear : input = ascii "clear"
  · have htokens : tokens (ascii "clear") = [ascii "clear"] := by decide
    subst hclear
    refine iff_of_false (by rw [if_pos rfl, hok]; decide) ?_
    rw [htokens]
    rintro ⟨text, htext, -⟩
    exact absurd htext List.not_mem_nil
  rw [if_neg hclear]
  cases hts : tokens input with
  | nil => simp [subscript]
  | cons op args =>
      rw [subscript_cons_zero]
      dsimp only
      by_cases huse : op = ascii "use" ∧ args.length = 1
      · obtain ⟨name, rfl⟩ := List.length_eq_one_iff.mp huse.2
        have hname : NEWLINE ∉ name :=
          ((shaped_tokens input).tokenShape name (by simp [hts])).newline_notMem
        rw [if_pos ⟨huse.1, rfl⟩, if_pos huse, subscript_cons_succ, subscript_cons_zero]
        dsimp only
        rw [infix_useKeyspace_iff hname]
        by_cases hfails : s.RenameFails env
        · simp [hfails]
        · simp [hfails]
      rw [if_neg fun h => huse ⟨h.1, Nat.succ.inj h.2⟩, if_neg huse]
      by_cases hshow : input = ascii "show"
      · rw [if_pos hshow, if_pos hshow, hok, List.exists_mem_cons_iff, exists_mem_lines_iff]
        exact infix_display_iff env s.db
      rw [if_neg hshow, if_neg hshow]
      by_cases hkeys : input = ascii "keys"
      · rw [if_pos hkeys, if_pos hkeys, hok, List.exists_mem_cons_iff, exists_mem_lines_iff]
        exact infix_displayKeys_iff env s.db
      rw [if_neg hkeys, if_neg hkeys]
      by_cases hvalues : input = ascii "values"
      · rw [if_pos hvalues, if_pos hvalues, hok, List.exists_mem_cons_iff, exists_mem_lines_iff]
        exact infix_displayValues_iff env s.db
      rw [if_neg hvalues, if_neg hvalues, exists_mem_lines_iff fun value => value]
      by_cases hquit : input = ascii "quit" ∨ input = ascii "exit"
      · have hanswer : s.db.answer (op :: args) = [] := by
          rw [← hts]
          rcases hquit with rfl | rfl
          · rw [show tokens (ascii "quit") = [ascii "quit"] by decide]
            rfl
          · rw [show tokens (ascii "exit") = [ascii "exit"] by decide]
            rfl
        rw [if_pos hquit, hanswer]
        refine iff_of_false ?_ (by simp)
        rw [quit]
        split
        · simp
        · rw [hok]
          decide
      rw [if_neg hquit]
      by_cases hexecutes : s.db.Executes env.staleName (tokens input)
      · rw [DB.parseCommand_eq hexecutes, hts]
        dsimp only
        rw [hok, ← infix_printVector_iff]
        split
        · next hnil => rw [hnil]; rfl
        · rfl
      -- what is appended is not answered
      · have hnil : s.db.answer (op :: args) = [] := by
          by_contra hanswer
          rw [← hts] at hanswer
          exact hexecutes (DB.executes_of_records_nil (DB.records_nil_of_answer hanswer) _ _)
        rw [DB.parseCommand_of_not_executes hexecutes, hnil]
        simp

end Server

end Taproot
