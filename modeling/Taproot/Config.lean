import Taproot.Library.Numerals
import Taproot.Log
import Taproot.Utils

/-!
# Taproot.Config

`config.cpp`: the configuration file of the server and the client.

A file is read line by line. A line that is not empty and no comment is split at
its first `=`, and both parts go into a map, where the last one of a key stays.
Each field of the configuration is checked on its own, and keeps its default if
the check fails; what is wrong is printed to `std::cerr`, which the functions
here return as the last component of their results.

The three lines of a configuration are read back in any order, with comments
and empty lines between them (`parseConfig_arrangement`).
-/

namespace Taproot

open Posix Journal

/-! ### Numerals -/

def PLUS : UInt8 := 43
def MINUS : UInt8 := 45

/-- The exceptions of `std::stoi`. -/
inductive StoiError
  | invalid_argument
  | out_of_range
  deriving DecidableEq, Repr

/-- The number that a string of digits denotes. -/
def decimal (digits : Bytes) : Nat := digits.foldl (fun n c => 10 * n + (c.toNat - 48)) 0

/-- `std::stoi`: after white space and a sign, as many digits as there are. What
follows them is not looked at. -/
def stoi (str : Bytes) : Except StoiError Int :=
  let str := str.dropWhile isspace
  let negative := decide (str.head? = some MINUS)
  let str := if str.head? = some MINUS ∨ str.head? = some PLUS then str.tail else str
  let digits := str.takeWhile isdigit
  if digits = [] then .error .invalid_argument
  else
    let number : Int := if negative then -decimal digits else decimal digits
    if number < -2147483648 ∨ 2147483647 < number then .error .out_of_range
    else .ok number

/-! ### The configuration -/

namespace Defaults

def HOST_DEFAULT : Bytes := ascii "127.0.0.1"
def PORT_DEFAULT : UInt16 := 6379
def KEYSPACE_DEFAULT : Bytes := ascii "default"

end Defaults

/-- `Config`. -/
structure Config where
  host : Bytes := Defaults.HOST_DEFAULT
  port : UInt16 := Defaults.PORT_DEFAULT
  keyspace : Bytes := Defaults.KEYSPACE_DEFAULT
  deriving DecidableEq, Repr

/-- What the configuration leaves to libraries. -/
structure Libraries where
  /-- `asio::ip::make_address`: the message of its error, if there is one. -/
  make_address : Bytes → Option Bytes
  /-- The message of an exception of `std::stoi`. -/
  what : StoiError → Bytes

/-- A number, as it is printed. -/
def number (n : UInt16) : Bytes := ascii (toString n.toNat)

/-- `validateHost`. -/
def validateHost (lib : Libraries) (cfg : Config) (host : Bytes) : Config × Bool × Bytes :=
  if host ≠ [] ∧ isAllSpace host = false then
    match lib.make_address host with
    | some message =>
      (cfg, false, message ++ ascii "\nInvalid host address: using " ++ cfg.host ++
        ascii " instead.\n")
    | none => ({ cfg with host }, true, [])
  else
    (cfg, false, ascii "Invalid host address: using " ++ cfg.host ++ ascii " instead.\n")

/-- `validatePort`. -/
def validatePort (lib : Libraries) (cfg : Config) (port : Bytes) : Config × Bool × Bytes :=
  match stoi port with
  | .error e =>
    (cfg, false, lib.what e ++ ascii "\nInvalid port: using " ++ number cfg.port ++
      ascii " instead.\n")
  | .ok portNumber =>
    if portNumber < 0 ∨ 65535 < portNumber then
      (cfg, false, ascii "Port number out of range: using " ++ number cfg.port ++
        ascii " instead.\n")
    else
      ({ cfg with port := UInt16.ofInt portNumber }, true, [])

def COMMENT : UInt8 := 35
def EQUALS : UInt8 := 61

/-- A line that the loop of `parseConfig` continues past. -/
def Ignored (line : Bytes) : Prop := line = [] ∨ line.head? = some COMMENT

instance (line : Bytes) : Decidable (Ignored line) := by unfold Ignored; infer_instance

/-- The body of the loop: what a line enters into the map. A read from a stream that
has nothing left fails, so a line that ends with its first `=` enters nothing. -/
def setting (line : Bytes) : Option (Σ _ : Bytes, Bytes) :=
  if Ignored line then none
  else
    match Words.getline EQUALS line with
    | none => none
    | some (key, iss) =>
      match Words.getline NEWLINE iss with
      | none => none
      | some (value, _) => some ⟨key, value⟩

/-- The map after the loop. -/
def settings (content : Bytes) : Map Bytes Bytes :=
  (getlines content).foldl
    (fun map line =>
      match setting line with
      | none => map
      | some pair => map.insert pair.1 pair.2)
    ∅

/-- `parseConfig`. -/
def parseConfig (lib : Libraries) (fs : Files) (filename : Bytes) : Config × Bytes :=
  let cfg : Config := {}
  match fs.read filename with
  | none => (cfg, ascii "\nError: Config file " ++ filename ++ ascii " has not been opened.\n\n")
  | some content =>
    let map := settings content
    let (cfg, hostErr) :=
      match map.lookup (ascii "host") with
      | some host =>
        let (cfg, _, err) := validateHost lib cfg host
        (cfg, err)
      | none =>
        (cfg, ascii "Invalid host address: using " ++ cfg.host ++ ascii " instead.\n")
    let (cfg, portErr) :=
      match map.lookup (ascii "port") with
      | some port =>
        let (cfg, _, err) := validatePort lib cfg port
        (cfg, err)
      | none =>
        (cfg, ascii "Invalid port: using " ++ number cfg.port ++ ascii " instead.\n")
    let cfg :=
      match map.lookup (ascii "keyspace") with
      | some keyspace => { cfg with keyspace }
      | none => cfg
    (cfg, hostErr ++ portErr)

/-- `spawnConfig`. -/
def spawnConfig (fs : Files) (filename : Bytes) : Files :=
  match fs.ino filename with
  | some _ => fs
  | none =>
    match fs.openTrunc filename with
    | (fs, none) => fs
    | (fs, some file) =>
      let fs := fs.append file (ascii "host=" ++ Defaults.HOST_DEFAULT ++ ascii "\n")
      let fs := fs.append file (ascii "port=" ++ number Defaults.PORT_DEFAULT ++ ascii "\n")
      fs.append file (ascii "keyspace=" ++ Defaults.KEYSPACE_DEFAULT ++ ascii "\n")

/-! ### Reading numerals back -/

theorem decimal_map {cs : List Char} (h : ∀ c ∈ cs, c.isDigit = true) :
    decimal (cs.map fun c => UInt8.ofNat c.toNat) = Nat.ofDigitChars 10 cs 0 := by
  rw [decimal, List.foldl_map, Nat.ofDigitChars_eq_foldl]
  refine List.foldl_ext _ _ _ fun n c hc => ?_
  have hle : c.toNat ≤ 57 := (Char.isDigit_iff_toNat.mp (h c hc)).2
  have hbyte : (UInt8.ofNat c.toNat).toNat = c.toNat :=
    Nat.mod_eq_of_lt (Nat.lt_of_le_of_lt hle (by decide))
  rw [hbyte]
  rfl

theorem decimal_toString (n : Nat) : decimal (ascii (toString n)) = n := by
  rw [ascii, Nat.toString_eq_repr, Nat.toList_repr,
    decimal_map fun c hc => Nat.isDigit_of_mem_toDigits (by decide) (by decide) hc,
    Nat.ofDigitChars_ten_toDigits]

theorem ascii_toString_ne_nil (n : Nat) : ascii (toString n) ≠ [] := by
  rw [ascii, Nat.toString_eq_repr, Nat.toList_repr]
  exact fun h => Nat.toDigits_ne_nil (List.map_eq_nil_iff.mp h)

theorem isspace_of_isdigit {c : UInt8} (h : isdigit c = true) : isspace c = false := by
  simp only [isdigit, isspace, Bool.and_eq_true, Bool.or_eq_false_iff, decide_eq_true_iff,
    decide_eq_false_iff_not, Bool.and_eq_false_iff, UInt8.le_iff_toNat_le, ← UInt8.toNat_inj] at h ⊢
  have hlow : 48 ≤ c.toNat := h.1
  exact ⟨fun heq => absurd (hlow.trans_eq heq) (by decide),
    Or.inr fun hle => absurd (hlow.trans hle) (by decide)⟩

/-- The characters of C++ numerals. -/
def numerals : Numerals.Charset UInt8 where
  space := isspace
  digit := isdigit
  plus := PLUS
  minus := MINUS
  space_of_digit := fun _ => isspace_of_isdigit
  space_plus := by decide
  space_minus := by decide
  digit_plus := by decide
  digit_minus := by decide
  plus_ne_minus := by decide

/-- The number that a numeral denotes. -/
def intValue (x : Numerals.Numeral numerals) : Int :=
  if x.sign = .minus then -decimal x.digits else decimal x.digits

/-- `std::stoi` scans its argument for a numeral. -/
theorem stoi_eq (str : Bytes) : stoi str =
    match Numerals.scan numerals str with
    | none => .error .invalid_argument
    | some (x, _) =>
      if intValue x < -2147483648 ∨ 2147483647 < intValue x then .error .out_of_range
      else .ok (intValue x) := by
  have hbody : (if (str.dropWhile isspace).head? = some MINUS ∨
        (str.dropWhile isspace).head? = some PLUS then (str.dropWhile isspace).tail
      else str.dropWhile isspace) = (Numerals.readSign numerals (str.dropWhile isspace)).2 :=
    (Numerals.readSign_snd numerals _).symm
  have hminus : (str.dropWhile isspace).head? = some MINUS ↔
      (Numerals.readSign numerals (str.dropWhile isspace)).1 = .minus :=
    (Numerals.readSign_fst_eq_minus_iff numerals _).symm
  rw [stoi]
  dsimp only
  rw [hbody]
  by_cases hdigits :
      (Numerals.readSign numerals (str.dropWhile isspace)).2.takeWhile isdigit = []
  · rw [if_pos hdigits, Numerals.scan_of_eq_nil numerals hdigits]
  · obtain ⟨x, hscan, hsign, hread⟩ := Numerals.scan_of_ne_nil numerals hdigits
    rw [if_neg hdigits, hscan]
    dsimp only
    rw [intValue, hsign, hread]
    simp only [decide_eq_true_eq, hminus]
    rfl

/-- A number, as a numeral. -/
def numeral (n : Nat) : Numerals.Numeral numerals :=
  Numerals.unsigned (ascii (toString n)) (fun _ => isdigit_of_mem_toString)
    (ascii_toString_ne_nil n)

theorem text_numeral (n : Nat) : (numeral n).text = ascii (toString n) :=
  Numerals.text_unsigned _ _ _

theorem intValue_numeral (n : Nat) : intValue (numeral n) = n :=
  congrArg Nat.cast (decimal_toString n)

/-- A number that fits an `int` is read back from its digits. -/
theorem stoi_toString {n : Nat} (h : n ≤ 2147483647) : stoi (ascii (toString n)) = .ok n := by
  have hscan := Numerals.scan_append (numeral n) Numerals.ends_nil
  rw [List.append_nil, text_numeral] at hscan
  rw [stoi_eq, hscan]
  dsimp only
  rw [intValue_numeral]
  exact if_neg (by omega)

/-! ### Reading lines back -/

theorem settings_eq (content : Bytes) :
    settings content = replay ∅ (puts ((getlines content).filterMap setting)) := by
  rw [settings, replay, puts, List.foldl_map, List.foldl_filterMap]
  congr 1
  funext map line
  cases setting line <;> rfl

/-- A line is split at its first `=`; there may be others in the value. -/
theorem setting_line {key value : Bytes} (hcomment : key.head? ≠ some COMMENT)
    (hkey : EQUALS ∉ key) (hvalue : value ≠ []) (hnewline : NEWLINE ∉ value) :
    setting (key ++ EQUALS :: value) = some ⟨key, value⟩ := by
  have hread : ¬Ignored (key ++ EQUALS :: value) := by
    intro hignored
    rcases hignored with hempty | hhead
    · exact absurd hempty (by simp)
    · cases key with
      | nil => exact absurd (Option.some.inj hhead) (by decide)
      | cons c key => exact hcomment hhead
  rw [setting, if_neg hread, Words.getline_line hkey]
  dsimp only
  rw [Words.getline_of_not_mem hnewline hvalue]

theorem setting_field {field key value : Bytes} (hfield : field = key ++ [EQUALS])
    (hcomment : key.head? ≠ some COMMENT) (hkey : EQUALS ∉ key) (hvalue : value ≠ [])
    (hnewline : NEWLINE ∉ value) : setting (field ++ value) = some ⟨key, value⟩ := by
  rw [hfield, List.append_assoc]
  exact setting_line hcomment hkey hvalue hnewline

theorem setting_ignored {line : Bytes} (h : Ignored line) : setting line = none := if_pos h

/-- The empty line that `getline` does not deliver at the end of a file enters
nothing either. -/
theorem filterMap_getlines {lines : List Bytes} (h : ∀ line ∈ lines, NEWLINE ∉ line) :
    (getlines ([NEWLINE].intercalate lines)).filterMap setting = lines.filterMap setting := by
  rw [getlines, Words.lines_intercalate h]
  split
  · next hlast =>
      have hsplit : lines.dropLast ++ [[]] = lines := List.dropLast_append_getLast? [] hlast
      conv_rhs => rw [← hsplit]
      rw [List.filterMap_append, List.filterMap_cons_none (setting_ignored (Or.inl rfl)),
        List.filterMap_nil, List.append_nil]
  · rfl

/-- Lines that are ignored can be left out. -/
theorem filterMap_setting (lines : List Bytes) :
    (lines.filter fun line => ¬Ignored line).filterMap setting = lines.filterMap setting := by
  rw [List.filterMap_filter]
  refine List.filterMap_congr fun line _ => ?_
  by_cases hignored : Ignored line
  · simp [hignored, setting_ignored]
  · simp [hignored]

/-! ### The round trip -/

namespace Config

/-- The three lines of a configuration. -/
def lines (cfg : Config) : List Bytes :=
  [ascii "host=" ++ cfg.host, ascii "port=" ++ number cfg.port, ascii "keyspace=" ++ cfg.keyspace]

/-- What its map holds. -/
def pairs (cfg : Config) : List (Σ _ : Bytes, Bytes) :=
  [⟨ascii "host", cfg.host⟩, ⟨ascii "port", number cfg.port⟩, ⟨ascii "keyspace", cfg.keyspace⟩]

/-- The configuration can be written to a file: the host is an address, and the
keyspace has a name. -/
structure Writable (lib : Libraries) (cfg : Config) : Prop where
  host : lib.make_address cfg.host = none
  host_line : NEWLINE ∉ cfg.host
  keyspace : cfg.keyspace ≠ []
  keyspace_line : NEWLINE ∉ cfg.keyspace

/-- The lines of a file, of which those that are not ignored are the three of the
configuration, in some order. -/
structure Arrangement (cfg : Config) (lines : List Bytes) : Prop where
  line : ∀ line ∈ lines, NEWLINE ∉ line
  perm : (lines.filter fun line => ¬Ignored line).Perm cfg.lines

theorem nodupKeys_pairs (cfg : Config) : cfg.pairs.NodupKeys := by
  show [ascii "host", ascii "port", ascii "keyspace"].Nodup
  decide

end Config

/-- `make_address` takes no blank string for an address. -/
def Libraries.RejectsBlank (lib : Libraries) : Prop :=
  ∀ host, isAllSpace host = true → lib.make_address host ≠ none

variable {lib : Libraries} {cfg : Config} {lines : List Bytes}

theorem validateHost_address (hlib : lib.RejectsBlank) (cfg : Config) {host : Bytes}
    (h : lib.make_address host = none) :
    validateHost lib cfg host = ({ cfg with host }, true, []) := by
  have hne : host ≠ [] := by
    intro hnil
    exact hlib host (by rw [hnil]; rfl) h
  have hspace : isAllSpace host = false := by
    cases hall : isAllSpace host with
    | false => rfl
    | true => exact absurd h (hlib host hall)
  rw [validateHost, if_pos ⟨hne, hspace⟩, h]

/-- A number that can be a port. -/
def IsPort (n : Int) : Prop := 0 ≤ n ∧ n ≤ 65535

instance (n : Int) : Decidable (IsPort n) := by unfold IsPort; infer_instance

theorem toNat_ofInt {n : Int} (h : IsPort n) : ((UInt16.ofInt n).toNat : Int) = n := by
  obtain ⟨hlow, hhigh⟩ := h
  rw [UInt16.ofInt, UInt16.toNat_ofNat']
  omega

/-- A port that `std::stoi` reads is taken. -/
theorem validatePort_of_isPort (lib : Libraries) (cfg : Config) {str : Bytes} {n : Int}
    (h : stoi str = .ok n) (hport : IsPort n) :
    validatePort lib cfg str = ({ cfg with port := UInt16.ofInt n }, true, []) := by
  have hrange : ¬(n < 0 ∨ 65535 < n) := by
    rw [IsPort] at hport
    omega
  rw [validatePort, h]
  dsimp only
  rw [if_neg hrange]

theorem validatePort_number (lib : Libraries) (cfg : Config) (port : UInt16) :
    validatePort lib cfg (number port) = ({ cfg with port }, true, []) := by
  have hlt : port.toNat < 65536 := port.toNat_lt
  have hport : IsPort port.toNat := ⟨by omega, by omega⟩
  have heq : UInt16.ofInt port.toNat = port :=
    UInt16.toNat_inj.mp (Int.ofNat.inj (toNat_ofInt hport))
  rw [number, validatePort_of_isPort lib cfg (stoi_toString (by omega)) hport, heq]

/-- **A file whose map holds the configuration** is read as the configuration. -/
theorem parseConfig_of_lookup {fs : Files} {filename content : Bytes} (hlib : lib.RejectsBlank)
    (hhost : lib.make_address cfg.host = none) (hread : fs.read filename = some content)
    (hmap : ∀ pair ∈ cfg.pairs, (settings content).lookup pair.1 = some pair.2) :
    parseConfig lib fs filename = (cfg, []) := by
  obtain ⟨hlookup, hmap⟩ := List.forall_mem_cons.mp hmap
  obtain ⟨hlookup', hmap⟩ := List.forall_mem_cons.mp hmap
  have hlookup'' := List.forall_mem_singleton.mp hmap
  rw [parseConfig, hread]
  dsimp only at hlookup hlookup' hlookup'' ⊢
  rw [hlookup]
  dsimp only
  rw [validateHost_address hlib _ hhost, hlookup']
  dsimp only
  rw [validatePort_number, hlookup'']
  rfl

/-- Each line enters its pair. -/
theorem filterMap_lines (hlib : lib.RejectsBlank) (h : cfg.Writable lib) :
    cfg.lines.filterMap setting = cfg.pairs := by
  have hdigits : ∀ c ∈ number cfg.port, isdigit c = true := fun c => isdigit_of_mem_toString
  have hport : NEWLINE ∉ number cfg.port := fun hc => absurd (hdigits _ hc) (by decide)
  have hhost : cfg.host ≠ [] := fun hnil => hlib cfg.host (by rw [hnil]; rfl) h.host
  have hline : setting (ascii "host=" ++ cfg.host) = some ⟨ascii "host", cfg.host⟩ :=
    setting_field (by decide) (by decide) (by decide) hhost h.host_line
  have hline' : setting (ascii "port=" ++ number cfg.port) = some ⟨ascii "port", number cfg.port⟩ :=
    setting_field (by decide) (by decide) (by decide) (ascii_toString_ne_nil _) hport
  have hline'' : setting (ascii "keyspace=" ++ cfg.keyspace) =
      some ⟨ascii "keyspace", cfg.keyspace⟩ :=
    setting_field (by decide) (by decide) (by decide) h.keyspace h.keyspace_line
  rw [Config.lines, List.filterMap_cons_some hline, List.filterMap_cons_some hline',
    List.filterMap_cons_some hline'']
  rfl

/-- Whatever the order of the lines, the map holds what they say. -/
theorem lookup_arrangement (hlib : lib.RejectsBlank) (h : cfg.Writable lib)
    (hlines : cfg.Arrangement lines) :
    ∀ pair ∈ cfg.pairs,
      (settings ([NEWLINE].intercalate lines)).lookup pair.1 = some pair.2 := by
  have hperm : (lines.filterMap setting).Perm cfg.pairs := by
    rw [← filterMap_setting, ← filterMap_lines hlib h]
    exact hlines.perm.filterMap setting
  have hnodup : (lines.filterMap setting).NodupKeys :=
    (List.perm_nodupKeys hperm).mpr cfg.nodupKeys_pairs
  intro pair hpair
  rw [settings_eq, filterMap_getlines hlines.line]
  exact lookup_replay_puts hnodup (hperm.mem_iff.mpr hpair) ∅

/-- **The lines of a configuration are read back**, in any order, and with empty lines
and comments between them. -/
theorem parseConfig_arrangement {fs : Files} {filename : Bytes} (hlib : lib.RejectsBlank)
    (h : cfg.Writable lib) (hlines : cfg.Arrangement lines)
    (hread : fs.read filename = some ([NEWLINE].intercalate lines)) :
    parseConfig lib fs filename = (cfg, []) :=
  parseConfig_of_lookup hlib h.host hread (lookup_arrangement hlib h hlines)

/-- Comments, an empty line, and the separators in a value. -/
theorem parseConfig_arrangement_keyspace_first :
    let lib : Libraries :=
      ⟨fun host => if host = ascii "::1" then none else some (ascii "Invalid argument"),
        fun _ => ascii "stoi"⟩
    parseConfig lib (filesWith (ascii "config.cfg")
        (ascii "#host=\nkeyspace=a=b #c\n\nport=65535\n#\nhost=::1")) (ascii "config.cfg") =
      (⟨ascii "::1", 65535, ascii "a=b #c"⟩, []) := by
  intro lib
  let cfg : Config := ⟨ascii "::1", 65535, ascii "a=b #c"⟩
  have hlib : lib.RejectsBlank := by
    intro host hblank haccepted
    by_cases hhost : host = ascii "::1"
    · rw [hhost] at hblank
      exact absurd hblank (by decide)
    · exact absurd ((if_neg hhost).symm.trans haccepted) (by simp)
  have hhost :
      (if ascii "::1" = ascii "::1" then none else some (ascii "Invalid argument")) = none :=
    if_pos rfl
  have hwritable : cfg.Writable lib := ⟨hhost, by decide, by decide, by decide⟩
  have hlines : cfg.Arrangement [ascii "#host=", ascii "keyspace=a=b #c", [], ascii "port=65535",
      ascii "#", ascii "host=::1"] := ⟨by decide, by decide⟩
  have htext : ascii "#host=\nkeyspace=a=b #c\n\nport=65535\n#\nhost=::1" =
      [NEWLINE].intercalate [ascii "#host=", ascii "keyspace=a=b #c", [], ascii "port=65535",
        ascii "#", ascii "host=::1"] := by decide
  rw [htext]
  exact parseConfig_arrangement hlib hwritable hlines (read_filesWith _ _)

/-- **A file that is spawned** is read as the defaults. -/
theorem parseConfig_spawnConfig {fs : Files} {filename e : Bytes} (hlib : lib.RejectsBlank)
    (hhost : lib.make_address Defaults.HOST_DEFAULT = none) (hnone : fs.ino filename = none)
    (hp : fs.resolve filename = some e) :
    parseConfig lib (spawnConfig fs filename) filename = ({}, []) := by
  have hwritable : Config.Writable lib {} := ⟨hhost, by decide, by decide, by decide⟩
  have hlines : Config.Arrangement {} (Config.lines {} ++ [[]]) := ⟨by decide, by decide⟩
  refine parseConfig_of_lookup hlib hhost ?_ (lookup_arrangement hlib hwritable hlines)
  obtain ⟨file, hfile, hview, -⟩ := FS.view_openTrunc_self hp
  obtain ⟨hdir, hdata⟩ := FS.view_eq_some_iff.mp hview
  have hopen : fs.openTrunc filename = ((fs.openTrunc filename).1, some file) := Prod.ext rfl hfile
  rw [spawnConfig, hnone, hopen]
  dsimp only
  have hresolve (bytes : Bytes) :
      ((fs.openTrunc filename).1.append file bytes).resolve filename = some e :=
    (congrFun (FS.openTrunc_resolve fs filename) filename).trans hp
  rw [FS.append_append, FS.append_append, FS.read_eq (hresolve _), FS.view_append_self hdir, hdata]
  rfl

end Taproot
