import Taproot.Config

/-!
# Taproot.Ports

Which strings are taken for a **port**.

`validatePort` hands its argument to `std::stoi` and looks at the number alone.
`std::stoi` reads the numeral that the string starts with, and does not say here
where that numeral ends: a port is taken with whatever stands after it. On every
other string the check does what it is for (`validatePort_validates_iff`), however
long the number.
-/

namespace Taproot

open Journal Numerals

/-- The whole string is a numeral, and this is its number. -/
def Denotes (str : Bytes) (n : Int) : Prop :=
  ∃ x : Numeral numerals, x.text = str ∧ intValue x = n

/-- The string starts with a port, and goes on after its digits. -/
def PortThenMore (str : Bytes) : Prop :=
  ∃ (x : Numeral numerals) (c : UInt8) (rest : Bytes),
    str = x.text ++ c :: rest ∧ isdigit c = false ∧ IsPort (intValue x)

/-- The check of a string: it accepts those that denote a port, enters that port, and
leaves the configuration alone otherwise. -/
structure Validates (lib : Libraries) (cfg : Config) (str : Bytes) : Prop where
  accepts : (validatePort lib cfg str).2.1 = true ↔ ∃ n, IsPort n ∧ Denotes str n
  sets : ∀ n, IsPort n → Denotes str n →
    ∃ port : UInt16, (port.toNat : Int) = n ∧ (validatePort lib cfg str).1 = { cfg with port }
  keeps : (¬∃ n, IsPort n ∧ Denotes str n) → (validatePort lib cfg str).1 = cfg

/-! ### What is read -/

theorem denotes_iff {str : Bytes} {n : Int} :
    Denotes str n ↔ ∃ x, scan numerals str = some (x, []) ∧ intValue x = n := by
  constructor
  · intro h
    obtain ⟨x, htext, hvalue⟩ := h
    refine ⟨x, scan_eq_some_iff.mpr ⟨?_, ends_nil⟩, hvalue⟩
    rw [htext, List.append_nil]
  · intro h
    obtain ⟨x, hscan, hvalue⟩ := h
    refine ⟨x, ?_, hvalue⟩
    rw [(scan_sound hscan).1, List.append_nil]

theorem portThenMore_iff {str : Bytes} :
    PortThenMore str ↔
      ∃ x c rest, scan numerals str = some (x, c :: rest) ∧ IsPort (intValue x) := by
  constructor
  · intro h
    obtain ⟨x, c, rest, htext, hc, hport⟩ := h
    exact ⟨x, c, rest, scan_eq_some_iff.mpr ⟨htext, ends_cons.mpr hc⟩, hport⟩
  · intro h
    obtain ⟨x, c, rest, hscan, hport⟩ := h
    obtain ⟨htext, hends⟩ := scan_sound hscan
    exact ⟨x, c, rest, htext, ends_cons.mp hends, hport⟩

instance (str : Bytes) : Decidable (PortThenMore str) :=
  decidable_of_iff (∃ read, read ∈ scan numerals str ∧ read.2 ≠ [] ∧ IsPort (intValue read.1)) <| by
    rw [portThenMore_iff]
    constructor
    · intro h
      obtain ⟨read, hscan, hne, hport⟩ := h
      obtain ⟨c, rest, hrest⟩ := List.exists_cons_of_ne_nil hne
      exact ⟨read.1, c, rest, hrest ▸ hscan, hport⟩
    · intro h
      obtain ⟨x, c, rest, hscan, hport⟩ := h
      exact ⟨(x, c :: rest), hscan, List.cons_ne_nil c rest, hport⟩

/-- A port is read if it is the number of the numeral that the string starts with. -/
theorem stoi_eq_ok_iff {str : Bytes} {n : Int} (hport : IsPort n) :
    stoi str = .ok n ↔ ∃ x rest, scan numerals str = some (x, rest) ∧ intValue x = n := by
  rw [stoi_eq]
  cases hscan : scan numerals str with
  | none => simp
  | some pair =>
      obtain ⟨x, rest⟩ := pair
      dsimp only
      constructor
      · intro h
        split at h
        · exact absurd h (by simp)
        · exact ⟨x, rest, rfl, Except.ok.inj h⟩
      · intro h
        obtain ⟨y, rest', heq, hvalue⟩ := h
        obtain ⟨rfl, rfl⟩ := Prod.mk.inj (Option.some.inj heq)
        have hrange : ¬(intValue x < -2147483648 ∨ 2147483647 < intValue x) := by
          rw [hvalue]
          rw [IsPort] at hport
          omega
        rw [if_neg hrange, hvalue]

/-- What denotes a port is read as that port. -/
theorem stoi_of_denotes {str : Bytes} {n : Int} (hport : IsPort n) (h : Denotes str n) :
    stoi str = .ok n := by
  obtain ⟨x, hscan, hvalue⟩ := denotes_iff.mp h
  exact (stoi_eq_ok_iff hport).mpr ⟨x, [], hscan, hvalue⟩

/-- A port that is read is denoted, unless something follows it. -/
theorem denotes_of_stoi {str : Bytes} {n : Int} (hport : IsPort n) (hmore : ¬PortThenMore str)
    (h : stoi str = .ok n) : Denotes str n := by
  obtain ⟨x, rest, hscan, hvalue⟩ := (stoi_eq_ok_iff hport).mp h
  cases rest with
  | nil => exact denotes_iff.mpr ⟨x, hscan, hvalue⟩
  | cons c rest =>
      exact absurd (portThenMore_iff.mpr ⟨x, c, rest, hscan, hvalue.symm ▸ hport⟩) hmore

/-- What a port is followed by is in the way of any number. -/
theorem not_denotes_of_portThenMore {str : Bytes} (h : PortThenMore str) (n : Int) :
    ¬Denotes str n := by
  intro hdenotes
  obtain ⟨x, c, rest, hscan, -⟩ := portThenMore_iff.mp h
  obtain ⟨y, hscan', -⟩ := denotes_iff.mp hdenotes
  have hrest : c :: rest = [] :=
    congrArg Prod.snd (Option.some.inj (hscan.symm.trans hscan'))
  exact List.cons_ne_nil c rest hrest

/-! ### What is accepted -/

/-- A string that no port is read from is refused, and the configuration stays. -/
theorem validatePort_refused (lib : Libraries) (cfg : Config) {str : Bytes}
    (h : ∀ n, IsPort n → stoi str ≠ .ok n) :
    ∃ message, validatePort lib cfg str = (cfg, false, message) := by
  rw [validatePort]
  cases hread : stoi str with
  | error e => exact ⟨_, rfl⟩
  | ok n =>
      have hrange : n < 0 ∨ 65535 < n := by
        by_contra hrange
        exact h n ⟨by omega, by omega⟩ hread
      dsimp only
      rw [if_pos hrange]
      exact ⟨_, rfl⟩

theorem validatePort_accepts_iff (lib : Libraries) (cfg : Config) (str : Bytes) :
    (validatePort lib cfg str).2.1 = true ↔ ∃ n, IsPort n ∧ stoi str = .ok n := by
  constructor
  · intro h
    by_contra hnone
    obtain ⟨message, heq⟩ := validatePort_refused lib cfg fun n hport hread =>
      hnone ⟨n, hport, hread⟩
    rw [heq] at h
    exact Bool.false_ne_true h
  · intro h
    obtain ⟨n, hport, hread⟩ := h
    rw [validatePort_of_isPort lib cfg hread hport]

/-- A string with nothing after its port is checked as a whole. -/
theorem validates_of_not_portThenMore (lib : Libraries) (cfg : Config) {str : Bytes}
    (hmore : ¬PortThenMore str) : Validates lib cfg str where
  accepts := by
    rw [validatePort_accepts_iff]
    refine exists_congr fun n => and_congr_right fun hport => ?_
    exact ⟨denotes_of_stoi hport hmore, stoi_of_denotes hport⟩
  sets := by
    intro n hport hdenotes
    refine ⟨UInt16.ofInt n, toNat_ofInt hport, ?_⟩
    rw [validatePort_of_isPort lib cfg (stoi_of_denotes hport hdenotes) hport]
  keeps := by
    intro hnone
    obtain ⟨message, heq⟩ := validatePort_refused lib cfg fun n hport hread =>
      hnone ⟨n, hport, denotes_of_stoi hport hmore hread⟩
    rw [heq]

/-- A port is accepted, with whatever follows it. -/
theorem validatePort_of_portThenMore (lib : Libraries) (cfg : Config) {str : Bytes}
    (h : PortThenMore str) : (validatePort lib cfg str).2.1 = true := by
  obtain ⟨x, c, rest, hscan, hport⟩ := portThenMore_iff.mp h
  exact (validatePort_accepts_iff lib cfg str).mpr
    ⟨intValue x, hport, (stoi_eq_ok_iff hport).mpr ⟨x, c :: rest, hscan, rfl⟩⟩

theorem not_validates_of_portThenMore (lib : Libraries) (cfg : Config) {str : Bytes}
    (hmore : PortThenMore str) : ¬Validates lib cfg str := by
  intro h
  obtain ⟨n, -, hdenotes⟩ := h.accepts.mp (validatePort_of_portThenMore lib cfg hmore)
  exact not_denotes_of_portThenMore hmore n hdenotes

/-- **A string is checked as a whole** just if nothing follows the port that it starts
with. -/
theorem validatePort_validates_iff (lib : Libraries) (cfg : Config) (str : Bytes) :
    Validates lib cfg str ↔ ¬PortThenMore str := by
  constructor
  · intro h hmore
    exact not_validates_of_portThenMore lib cfg hmore h
  · exact validates_of_not_portThenMore lib cfg

/-- Letters after a port. -/
theorem not_validates_letters :
    let lib : Libraries := ⟨fun _ => none, fun _ => ascii "stoi"⟩
    validatePort lib {} (ascii "80abc") = ({ port := 80 }, true, []) ∧
      ¬Validates lib {} (ascii "80abc") := by
  intro lib
  have hmore : PortThenMore (ascii "80abc") := by decide
  exact ⟨by decide, not_validates_of_portThenMore lib {} hmore⟩

end Taproot
