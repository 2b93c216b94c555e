import Taproot.Traffic

/-!
# Taproot.Lines

**One line for each record.** Whatever bytes a command is made of, its tokens
hold no newline, so neither does the line of a record before its end: no command
can write a record that it was not asked for.

The facts are about single tokens and records first; `extends_run` carries them
through runs of commands and rounds of the flusher, for a keyspace in any state,
replaying or not, with its log open or closed.
-/

namespace Taproot

open Posix Journal

/-! ### The whitespace in a token -/

/-- The only whitespace is single spaces between words. -/
def SingleSpaced (t : Bytes) : Prop := ∃ ws, (∀ w ∈ ws, IsWord w) ∧ t = joined ws

theorem TokenShape.singleSpaced {t : Bytes} (h : TokenShape t) : SingleSpaced t := by
  rcases h with (hbare | ⟨w, ms, l, hp, -, rfl⟩) | ⟨w, ms, l, hp, -, rfl⟩
  · by_cases hne : t = []
    · exact ⟨[], fun w hw => absurd hw List.not_mem_nil, hne⟩
    · refine ⟨[t], fun w hw => ?_, (joined_singleton t).symm⟩
      rw [List.mem_singleton.mp hw]
      exact hbare.isWord hne
  · exact ⟨_, hp.isWord, rfl⟩
  · exact ⟨_, hp.isWord, rfl⟩

/-- Only a token that starts with a quotation mark has a space. -/
theorem TokenShape.opens_of_space_mem {t : Bytes} (h : TokenShape t) (hspace : SPACE ∈ t) :
    opens t = true := by
  rcases h with (hbare | ⟨w, ms, l, hp, -, rfl⟩) | ⟨w, ms, l, hp, -, rfl⟩
  · exact absurd hspace hbare.space_notMem
  · exact hp.opens_joined
  · exact hp.opens_joined

/-! ### The line of a record -/

/-- A newline at the end and none before it, and `put` or `del` for the first
word. -/
structure IsRecordLine (l : Bytes) : Prop where
  newline : ∃ text, l = text ++ [NEWLINE] ∧ NEWLINE ∉ text
  op : (words l).head? = some (ascii "put") ∨ (words l).head? = some (ascii "del")

theorem head?_words_append {w : Bytes} (hw : IsWord w) (s : Bytes) :
    (words (w ++ SPACE :: s)).head? = some w := by
  rw [words, Words.words_append_cons _ _ isspace_SPACE, Words.words_of_isWord hw]
  rfl

theorem isRecordLine_line {r : Record} (h : RecordShape r) : IsRecordLine r.line where
  newline := ⟨lineText r, line_eq r, newline_notMem_lineText h⟩
  op := by
    rw [line_eq]
    cases r with
    | put k v =>
        refine Or.inl ?_
        rw [lineText, List.append_assoc]
        exact head?_words_append plainWord_put.1 _
    | del k =>
        refine Or.inr ?_
        rw [lineText, List.append_assoc]
        exact head?_words_append plainWord_del.1 _

theorem mem_commandRecords_of_mem_loggedRecords {replaying : Bool} {ts : List Bytes} {r : Record}
    (h : r ∈ loggedRecords replaying ts) : r ∈ commandRecords ts := by
  rw [loggedRecords] at h
  split at h
  · exact absurd h List.not_mem_nil
  · exact h

theorem recordShape_of_mem_records {ev : Event} (hev : ev.isTraffic = true) :
    ∀ r ∈ ev.records, RecordShape r := by
  cases ev with
  | command c => exact recordShape_of_mem_commandRecords (shaped_tokens c)
  | swap => exact fun r hr => absurd hr List.not_mem_nil
  | write => exact fun r hr => absurd hr List.not_mem_nil
  | call c => exact absurd hev Bool.false_ne_true
  | clearData => exact absurd hev Bool.false_ne_true
  | shutdown env => exact absurd hev Bool.false_ne_true

/-! ### Runs -/

namespace Keyspace

variable {name a : Bytes} {ks ks' ks'' : Keyspace} {rs rs' : List Record}

/-- Between two states, the records `rs` were appended, and their lines are what
the text of the log has grown by. -/
structure Extends (ks ks' : Keyspace) (rs : List Record) : Prop where
  appended : ks'.db.logger.appended = ks.db.logger.appended ++ rs
  text : ks'.text = ks.text ++ logLines rs

theorem Extends.of_eq (happended : ks'.db.logger.appended = ks.db.logger.appended)
    (htext : ks'.text = ks.text) : Extends ks ks' [] where
  appended := by rw [happended, List.append_nil]
  text := by rw [htext, logLines_nil, List.append_nil]

theorem Extends.trans (h : Extends ks ks' rs) (h' : Extends ks' ks'' rs') :
    Extends ks ks'' (rs ++ rs') where
  appended := by rw [h'.appended, h.appended, List.append_assoc]
  text := by rw [h'.text, h.text, logLines_append, List.append_assoc]

theorem extends_step (ha : Attached name a ks) {ev : Event} (hev : ev.isTraffic = true) :
    ∃ rs, Extends ks (ks.step ev).1 rs ∧ ∀ r ∈ rs, r ∈ ev.records := by
  have hnil : ∀ r ∈ ([] : List Record), r ∈ ev.records := fun r hr => absurd hr List.not_mem_nil
  cases ev with
  | command c =>
      have htext := text_command (ha.appends none) c
      cases hopen : ks.db.logger.logfile with
      | none =>
          rw [hopen, if_neg (by simp), List.append_nil] at htext
          refine ⟨[], .of_eq ?_ htext, hnil⟩
          rw [step_command (ha.appends none)]
          exact congrArg Log.appended (Log.appendAll_of_closed hopen _)
      | some i =>
          rw [hopen, Option.isSome_some, if_pos rfl] at htext
          refine ⟨_, ⟨?_, htext⟩, fun r hr => mem_commandRecords_of_mem_loggedRecords hr⟩
          rw [step_command (ha.appends none)]
          exact congrArg Log.appended (Log.appendAll_of_open hopen _)
  | swap => exact ⟨[], .of_eq (Log.flusherSwap_appended _) (text_swap ks), hnil⟩
  | write => exact ⟨[], .of_eq rfl (text_write ha), hnil⟩
  | call c => exact absurd hev Bool.false_ne_true
  | clearData => exact absurd hev Bool.false_ne_true
  | shutdown env => exact absurd hev Bool.false_ne_true

theorem extends_run (ha : Attached name a ks) {es : List Event}
    (hes : ∀ e ∈ es, e.isTraffic = true) :
    ∃ rs, Extends ks (ks.run es) rs ∧ ∀ r ∈ rs, ∃ e ∈ es, r ∈ e.records := by
  induction es generalizing ks with
  | nil => exact ⟨[], .of_eq rfl rfl, fun r hr => absurd hr List.not_mem_nil⟩
  | cons e es ih =>
      obtain ⟨rs, hstep, hrs⟩ := extends_step ha (hes e List.mem_cons_self)
      obtain ⟨rs', hrun, hrs'⟩ :=
        ih (attached_step ha e) fun e' he' => hes e' (List.mem_cons_of_mem e he')
      refine ⟨rs ++ rs', hstep.trans hrun, fun r hr => ?_⟩
      rcases List.mem_append.mp hr with hr | hr
      · exact ⟨e, List.mem_cons_self, hrs r hr⟩
      · obtain ⟨e', he', hr'⟩ := hrs' r hr
        exact ⟨e', List.mem_cons_of_mem e he', hr'⟩

/-- **No command can forge a record.** In every run of commands and rounds of the
flusher, every line that is appended ends with its only newline and starts with
`put` or `del`, and the lines that the text of the log grows by are those of the
appended records, one each and in their order. The tokens of every input are
single-spaced, and have a space only after a quotation mark at their start. -/
theorem run_lines (ha : Attached name a ks) {es : List Event}
    (hes : ∀ e ∈ es, e.isTraffic = true) :
    (∃ rs, (ks.run es).db.logger.appended = ks.db.logger.appended ++ rs ∧
      (∀ r ∈ rs, IsRecordLine r.line) ∧
      (ks.run es).text = ks.text ++ logLines rs ∧
      (getlines (logLines rs)).map (· ++ [NEWLINE]) = rs.map Record.line ∧
      (Words.Terminated NEWLINE ks.text →
        getlines (ks.run es).text = getlines ks.text ++ getlines (logLines rs))) ∧
    ∀ input, ∃ ts, tokenize input = .ok ts ∧
      ∀ t ∈ ts, SingleSpaced t ∧ (SPACE ∈ t → opens t = true) := by
  constructor
  · obtain ⟨rs, hrun, hrs⟩ := extends_run ha hes
    have hshape : ∀ r ∈ rs, RecordShape r := by
      intro r hr
      obtain ⟨e, he, hr⟩ := hrs r hr
      exact recordShape_of_mem_records (hes e he) r hr
    refine ⟨rs, hrun.appended, fun r hr => isRecordLine_line (hshape r hr), hrun.text, ?_, ?_⟩
    · rw [getlines_logLines hshape, List.map_map]
      exact List.map_congr_left fun r _ => (line_eq r).symm
    · intro hterminated
      rw [hrun.text]
      exact hterminated.lines_append _
  · intro input
    refine ⟨tokens input, tokenize_eq input, fun t ht => ?_⟩
    have hshape := (shaped_tokens input).tokenShape t ht
    exact ⟨hshape.singleSpaced, hshape.opens_of_space_mem⟩

/-- A command with newlines and quotation marks in its arguments. -/
theorem run_lines_newlines :
    ∃ rs, ((fresh (ascii "a")).run [.command (ascii "put \"a\ndel\" \"b\nput c\"\n"), .swap]
        ).db.logger.appended = [] ++ rs ∧ ∀ r ∈ rs, IsRecordLine r.line := by
  have hes : ∀ e ∈ [Event.command (ascii "put \"a\ndel\" \"b\nput c\"\n"), .swap],
      e.isTraffic = true := by decide
  obtain ⟨⟨rs, happended, hlines, -⟩, -⟩ := run_lines (attached_fresh (ascii "a")) hes
  exact ⟨rs, happended, hlines⟩

end Keyspace

end Taproot
