import Taproot.Snapshot

/-!
# Taproot.Compressing

The **compression of a snapshot**: how much of it LZ4 is given, and what becomes
of the file when it refuses.

LZ4 takes the length as an `int`. A length that is too long for LZ4 but not for
32 bits arrives as it is or below zero, and is refused. A longer one arrives
without its upper bits; if what is left is in the range of LZ4, then that much
of the text is compressed, and the rest is lost (`compress_recoverable_iff`).

The file is emptied before anything is compressed, so a snapshot that throws has
dropped the last one (`writeBinarySnapshot_keeps_iff`).
-/

namespace Taproot

open Posix Journal

/-! ### What LZ4 promises -/

/-- `LZ4_MAX_INPUT_SIZE`. -/
def LZ4_MAX_INPUT_SIZE : Nat := 2113929216

/-- A size that LZ4 accepts. -/
def Lz4.Accepts (size : Int) : Prop := 0 ≤ size ∧ size ≤ LZ4_MAX_INPUT_SIZE

/-- **What LZ4 promises**: other sizes are refused; into a buffer of the bound, the
first `size` bytes of an input that has as many are always compressed, so that
`decompress` gives them back from their number; and no other bytes are read. -/
structure Lz4.Conforms (lz4 : Lz4) (decompress : Nat → Bytes → Bytes) : Prop where
  bound : ∀ size, ¬Accepts size → lz4.LZ4_compressBound size = 0
  refuses : ∀ input size capacity, ¬Accepts size →
    (lz4.LZ4_compress_default input size capacity).1 = 0
  succeeds : ∀ input size, Accepts size → size.toNat ≤ input.length →
    0 < (lz4.LZ4_compress_default input size (lz4.LZ4_compressBound size)).1
  lossless : ∀ input size, Accepts size → size.toNat ≤ input.length →
    decompress size.toNat ((lz4.LZ4_compress_default input size
      (lz4.LZ4_compressBound size)).2.takeD
        (lz4.LZ4_compress_default input size (lz4.LZ4_compressBound size)).1.toNat 0) =
      input.take size.toNat
  reads : ∀ input input' size capacity, Accepts size →
    size.toNat ≤ input.length → size.toNat ≤ input'.length →
    input.take size.toNat = input'.take size.toNat →
    lz4.LZ4_compress_default input size capacity = lz4.LZ4_compress_default input' size capacity

namespace Log

variable {lz4 : Lz4} {decompress : Nat → Bytes → Bytes} {input input' out : Bytes}

/-! ### Narrowing the length -/

/-- The conversion to `int` ends in the range of LZ4 exactly if the lower 32 bits
do, and then it keeps just these. -/
theorem accepts_toInt_iff (n : Nat) :
    Lz4.Accepts (toInt n) ↔ n % 2 ^ 32 ≤ LZ4_MAX_INPUT_SIZE := by
  rw [Lz4.Accepts, toInt, LZ4_MAX_INPUT_SIZE]
  omega

theorem toNat_toInt {n : Nat} (h : Lz4.Accepts (toInt n)) : (toInt n).toNat = n % 2 ^ 32 := by
  rw [Lz4.Accepts, toInt, LZ4_MAX_INPUT_SIZE] at h
  rw [toInt]
  omega

theorem toNat_toInt_le {n : Nat} (h : Lz4.Accepts (toInt n)) : (toInt n).toNat ≤ n := by
  rw [toNat_toInt h]
  exact Nat.mod_le n _

/-! ### What is compressed -/

/-- LZ4 compresses the input, or as much as it is given of it. -/
def Compresses (lz4 : Lz4) (input : Bytes) : Prop :=
  0 < (lz4.LZ4_compress_default input (toInt input.length)
    (lz4.LZ4_compressBound (toInt input.length))).1

theorem compress_eq (hne : input ≠ []) : compress lz4 input =
    if (lz4.LZ4_compress_default input (toInt input.length)
        (lz4.LZ4_compressBound (toInt input.length))).1 ≤ 0 then
      .error (.exception (ascii "Cannot compress data."))
    else .ok ((lz4.LZ4_compress_default input (toInt input.length)
        (lz4.LZ4_compressBound (toInt input.length))).2.takeD
      (lz4.LZ4_compress_default input (toInt input.length)
        (lz4.LZ4_compressBound (toInt input.length))).1.toNat 0) := by
  rw [compress, if_neg hne]

theorem compress_error_iff (hne : input ≠ []) :
    (∃ e, compress lz4 input = .error e) ↔ ¬Compresses lz4 input := by
  rw [compress_eq hne, Compresses, Int.not_lt]
  split
  · next h => exact iff_of_true ⟨_, rfl⟩ h
  · next h => exact iff_of_false (by simp) h

theorem compresses_iff (h : lz4.Conforms decompress) :
    Compresses lz4 input ↔ input.length % 2 ^ 32 ≤ LZ4_MAX_INPUT_SIZE := by
  rw [← accepts_toInt_iff, Compresses]
  by_cases hsize : Lz4.Accepts (toInt input.length)
  · exact iff_of_true (h.succeeds input _ hsize (toNat_toInt_le hsize)) hsize
  · rw [h.refuses input _ _ hsize]
    exact iff_of_false (Int.lt_irrefl 0) hsize

/-- What is returned stands for the part of the input that LZ4 is given. -/
theorem decompress_compress (h : lz4.Conforms decompress) (hne : input ≠ [])
    (hout : compress lz4 input = .ok out) :
    decompress (input.length % 2 ^ 32) out = input.take (input.length % 2 ^ 32) := by
  have hcompresses : Compresses lz4 input := by
    by_contra hrefused
    obtain ⟨e, he⟩ := (compress_error_iff hne).mpr hrefused
    rw [hout] at he
    exact absurd he (by simp)
  have hsize := (accepts_toInt_iff _).mpr ((compresses_iff h).mp hcompresses)
  have hlossless := h.lossless input _ hsize (toNat_toInt_le hsize)
  rw [compress_eq hne, if_neg (Int.not_le.mpr hcompresses)] at hout
  rw [Except.ok.inj hout, toNat_toInt hsize] at hlossless
  exact hlossless

/-- Inputs of one length that agree in that part are compressed alike. -/
theorem compress_congr (h : lz4.Conforms decompress) (hne : input ≠ [])
    (hlength : input'.length = input.length)
    (hsize : input.length % 2 ^ 32 ≤ LZ4_MAX_INPUT_SIZE)
    (htake : input.take (input.length % 2 ^ 32) = input'.take (input.length % 2 ^ 32)) :
    compress lz4 input' = compress lz4 input := by
  have hne' : input' ≠ [] := by
    intro hnil
    rw [hnil] at hlength
    exact hne (List.length_eq_zero_iff.mp hlength.symm)
  have haccepts := (accepts_toInt_iff _).mpr hsize
  have hle := toNat_toInt_le haccepts
  have hle' : (toInt input.length).toNat ≤ input'.length := by rw [hlength]; exact hle
  rw [← toNat_toInt haccepts] at htake
  rw [compress_eq hne, compress_eq hne', hlength,
    h.reads input input' _ _ haccepts hle hle' htake]

/-- The compression throws, or no other input of this length gives the same. -/
def Recoverable (lz4 : Lz4) (input : Bytes) : Prop :=
  ∀ out, compress lz4 input = .ok out →
    ∀ input' : Bytes, input'.length = input.length → compress lz4 input' = .ok out → input' = input

theorem recoverable_nil : Recoverable lz4 [] :=
  fun _ _ _ hlength _ => List.length_eq_zero_iff.mp hlength

/-- An input that LZ4 is given only a part of has a twin that differs in its last
byte. -/
theorem exists_twin (hne : input ≠ []) {n : Nat} (hn : n < input.length) :
    ∃ input' : Bytes, input'.length = input.length ∧ input.take n = input'.take n ∧
      input' ≠ input := by
  obtain ⟨c, hc⟩ : ∃ c : UInt8, c ≠ input.getLast hne := by
    by_cases hzero : input.getLast hne = 0
    · exact ⟨1, by rw [hzero]; decide⟩
    · exact ⟨0, fun h => hzero h.symm⟩
  have hsplit := List.dropLast_append_getLast hne
  have hlength : (input.dropLast ++ [c]).length = input.length := by
    rw [← congrArg List.length hsplit, List.length_append, List.length_append]
    rfl
  have hle : n ≤ input.dropLast.length := by
    rw [List.length_dropLast]
    omega
  refine ⟨input.dropLast ++ [c], hlength, ?_, fun heq => hc ?_⟩
  · rw [List.take_append_of_le_length hle]
    conv_lhs => rw [← hsplit]
    rw [List.take_append_of_le_length hle]
  · have hlast := (heq.trans hsplit.symm)
    exact List.head_eq_of_cons_eq (List.append_cancel_left hlast)

/-- **When the compressor handles its whole input**: its length fits in 32 bits, or
what the upper bits leave of it is too long for LZ4, which throws. -/
theorem compress_recoverable_iff (h : lz4.Conforms decompress) (input : Bytes) :
    Recoverable lz4 input ↔
      input.length < 2 ^ 32 ∨ LZ4_MAX_INPUT_SIZE < input.length % 2 ^ 32 := by
  by_cases hne : input = []
  · rw [hne]
    exact iff_of_true recoverable_nil (Or.inl (by decide))
  constructor
  · intro hrecoverable
    by_contra hneither
    obtain ⟨hlong, hsize⟩ := not_or.mp hneither
    have hsize := Nat.not_lt.mp hsize
    have hpart : input.length % 2 ^ 32 < input.length := by omega
    -- LZ4 is given the length in 32 bits, so it does not see the last byte
    obtain ⟨input', hlength, htake, hdiffer⟩ := exists_twin hne hpart
    have hcompresses : Compresses lz4 input := (compresses_iff h).mpr hsize
    cases hout : compress lz4 input with
    | error e => exact (compress_error_iff hne).mp ⟨e, hout⟩ hcompresses
    | ok out =>
        have hout' := (compress_congr h hne hlength hsize htake).trans hout
        exact hdiffer (hrecoverable out hout input' hlength hout')
  · intro hcases out hout input' hlength hout'
    have hcompresses : input.length % 2 ^ 32 ≤ LZ4_MAX_INPUT_SIZE := by
      rw [← compresses_iff h]
      by_contra hrefused
      obtain ⟨e, he⟩ := (compress_error_iff hne).mpr hrefused
      rw [hout] at he
      exact absurd he (by simp)
    -- otherwise it is given all of the input
    have hwhole : input.length % 2 ^ 32 = input.length :=
      Nat.mod_eq_of_lt (hcases.resolve_right (Nat.not_lt.mpr hcompresses))
    have hne' : input' ≠ [] := by
      intro hnil
      rw [hnil] at hlength
      exact hne (List.length_eq_zero_iff.mp hlength.symm)
    have hback := decompress_compress h hne hout
    have hback' := decompress_compress h hne' hout'
    rw [hlength, hback, hwhole, List.take_length, ← hlength, List.take_length] at hback'
    exact hback'.symm

/-! ### LZ4 without matches -/

/-- The head of a block of `n` literals: their number in half a byte, and what is
above 15 in bytes that add up to it. -/
def literalsHead (n : Nat) : Bytes :=
  if n < 15 then [UInt8.ofNat (n * 16)]
  else 240 :: (List.replicate ((n - 15) / 255) 255 ++ [UInt8.ofNat ((n - 15) % 255)])

instance (size : Int) : Decidable (Lz4.Accepts size) := by unfold Lz4.Accepts; infer_instance

/-- LZ4 where it finds no match, as in every input of at most twelve bytes: one
block of literals. -/
def literals : Lz4 where
  LZ4_compressBound size := if Lz4.Accepts size then size + size / 255 + 16 else 0
  LZ4_compress_default input size _ :=
    if Lz4.Accepts size then
      let block := literalsHead size.toNat ++ input.take size.toNat
      (block.length, block)
    else (0, [])

theorem literalsHead_ne_nil (n : Nat) : literalsHead n ≠ [] := by
  unfold literalsHead
  split <;> exact List.cons_ne_nil _ _

theorem literals_of_accepts {size : Int} (h : Lz4.Accepts size) (input : Bytes) (capacity : Int) :
    literals.LZ4_compress_default input size capacity =
      (((literalsHead size.toNat ++ input.take size.toNat).length : Int),
        literalsHead size.toNat ++ input.take size.toNat) := if_pos h

theorem literals_of_not_accepts {size : Int} (h : ¬Lz4.Accepts size) (input : Bytes)
    (capacity : Int) : literals.LZ4_compress_default input size capacity = (0, []) := if_neg h

/-- The literals are at the end of the block. -/
theorem conforms_literals :
    literals.Conforms fun size block => block.drop (block.length - size) where
  bound := fun size h => if_neg h
  refuses := fun input size capacity h => by rw [literals_of_not_accepts h]
  succeeds := fun input size h hle => by
    have hpos := List.length_pos_iff.mpr (literalsHead_ne_nil size.toNat)
    rw [literals_of_accepts h, List.length_append]
    omega
  lossless := fun input size h hle => by
    have hlength : (literalsHead size.toNat ++ input.take size.toNat).length - size.toNat =
        (literalsHead size.toNat).length := by
      rw [List.length_append, List.length_take_of_le hle]
      omega
    rw [literals_of_accepts h, Int.toNat_natCast, List.takeD_eq_take _ (Nat.le_refl _),
      List.take_length, hlength, List.drop_left]
  reads := fun input input' size capacity h hle hle' htake => by
    rw [literals_of_accepts h, literals_of_accepts h, htake]

/-- A short input is all there. -/
theorem compress_recoverable_short :
    compress literals (ascii "abc") = .ok [48, 97, 98, 99] ∧
      Recoverable literals (ascii "abc") := by
  refine ⟨by decide +kernel, ?_⟩
  exact (compress_recoverable_iff conforms_literals (ascii "abc")).mpr (Or.inl (by decide))

/-- Of an input whose length arrives as zero nothing is compressed: what is returned
is the block of no literals. -/
theorem compress_literals_of_zero {input : Bytes} (hne : input ≠ [])
    (hsize : toInt input.length = 0) : compress literals input = .ok [0] := by
  have haccepts : Lz4.Accepts 0 := by decide
  rw [compress_eq hne, hsize, literals_of_accepts haccepts, Int.toNat_zero, List.take_zero,
    List.append_nil]
  decide

theorem toInt_two_pow : toInt (2 ^ 32) = 0 := by decide

/-- Two inputs of 4 GiB cannot be told apart. -/
theorem not_compress_recoverable :
    literals.Conforms (fun size block => block.drop (block.length - size)) ∧
      ¬Recoverable literals (List.replicate (2 ^ 32) 0) := by
  have hout (c : UInt8) : compress literals (List.replicate (2 ^ 32) c) = .ok [0] := by
    refine compress_literals_of_zero (fun hnil => ?_) ?_
    · exact absurd ((List.replicate_eq_nil_iff c).mp hnil) (by decide)
    · rw [List.length_replicate, toInt_two_pow]
  refine ⟨conforms_literals, fun h => ?_⟩
  have hsame := h [0] (hout 0) (List.replicate (2 ^ 32) 1)
    (by rw [List.length_replicate, List.length_replicate]) (hout 1)
  have hmem : (1 : UInt8) ∈ List.replicate (2 ^ 32) 1 :=
    List.mem_replicate.mpr ⟨by decide, rfl⟩
  rw [hsame] at hmem
  exact absurd (List.mem_replicate.mp hmem).2 (by decide)

/-! ### A snapshot that throws -/

variable {env : Env} {fs : Files} {log : Log} {state : Store} {old : Bytes}

theorem serialize_ne_nil (env : Env) (state : Store) : serialize env state ≠ [] := by
  rw [serialize_eq]
  exact List.cons_ne_nil _ _

/-- **When a snapshot throws**: its file opens, and its text is long enough to be
compressed and cannot be. -/
theorem writeBinarySnapshot_throws_iff (env : Env) (fs : Files) (log : Log) (state : Store) :
    (∃ e, (log.writeBinarySnapshot env fs state).2 = .error e) ↔
      (fs.resolve log.dbFilepath).isSome = true ∧
        COMPRESSION_THRESHOLD < (serialize env state).length ∧
        ¬Compresses env.lz4 (serialize env state) := by
  simp only [writeBinarySnapshot_error_iff, snapshotText_error_iff, exists_and_left,
    compress_error_iff (serialize_ne_nil env state)]

/-- **When a snapshot that throws keeps the last one**: it does not throw, as it is not
compressed or the compression goes through; or the last one was empty. -/
theorem writeBinarySnapshot_keeps_iff (env : Env) (state : Store)
    (hold : fs.read log.dbFilepath = some old) :
    ((∃ e, (log.writeBinarySnapshot env fs state).2 = .error e) →
        (log.writeBinarySnapshot env fs state).1.read log.dbFilepath = some old) ↔
      (serialize env state).length ≤ COMPRESSION_THRESHOLD ∨
        Compresses env.lz4 (serialize env state) ∨ old = [] := by
  have hresolve : (fs.resolve log.dbFilepath).isSome = true := by
    cases h : fs.resolve log.dbFilepath with
    | none => simp [FS.read, FS.ino, h] at hold
    | some e => rfl
  have hthrows := writeBinarySnapshot_throws_iff env fs log state
  rw [and_iff_right hresolve] at hthrows
  -- a snapshot that throws leaves an empty file
  have hleft : (∃ e, (log.writeBinarySnapshot env fs state).2 = .error e) →
      (log.writeBinarySnapshot env fs state).1.read log.dbFilepath = some [] := by
    intro hthrown
    obtain ⟨e, he⟩ := hthrown
    obtain ⟨x, hx⟩ := Option.isSome_iff_exists.mp hresolve
    rw [read_writeBinarySnapshot, hx, (writeBinarySnapshot_error_iff.mp he).2]
    rfl
  constructor
  · intro hkeeps
    by_contra hnone
    obtain ⟨hlarge, hnone⟩ := not_or.mp hnone
    obtain ⟨hrefused, hnotempty⟩ := not_or.mp hnone
    have he := hthrows.mpr ⟨Nat.not_le.mp hlarge, hrefused⟩
    exact hnotempty (Option.some.inj ((hkeeps he).symm.trans (hleft he)))
  · intro hcases he
    obtain ⟨hlarge, hrefused⟩ := hthrows.mp he
    have hempty := (hcases.resolve_left (Nat.not_le.mpr hlarge)).resolve_left hrefused
    rw [hempty, hleft he]

/-- A value as long as LZ4 takes makes the state too long: the snapshot throws, and
whatever its file held is gone. -/
theorem writeBinarySnapshot_refused (content : Bytes) :
    let env := { Env.calm with lz4 := literals }
    let state := (∅ : Store).insert (ascii "k") (List.replicate LZ4_MAX_INPUT_SIZE 0)
    let left := (opened (ascii "a") 0).writeBinarySnapshot env
      (filesWith (dbPath (ascii "a")) content) state
    (∃ e, left.2 = .error e) ∧ left.1.read (dbPath (ascii "a")) = some [] := by
  intro env state left
  have hlength : (serialize env state).length = 2113929244 := by
    rw [length_serialize_singleton, List.length_replicate]
    rfl
  have hrefused : ¬Compresses env.lz4 (serialize env state) := by
    rw [compresses_iff conforms_literals, hlength]
    decide
  have hlarge : COMPRESSION_THRESHOLD < (serialize env state).length := by
    rw [hlength]
    decide
  obtain ⟨e, he⟩ := (compress_error_iff (serialize_ne_nil env state)).mpr hrefused
  have htext : snapshotText env state = .error e := snapshotText_error_iff.mpr ⟨hlarge, he⟩
  have hresolve : (filesWith (dbPath (ascii "a")) content).resolve (dbPath (ascii "a")) =
      some (dbPath (ascii "a")) :=
    congrFun (FS.openAppend_resolve blankFiles (dbPath (ascii "a"))) (dbPath (ascii "a"))
  refine ⟨⟨e, ?_⟩, ?_⟩
  · exact writeBinarySnapshot_error_iff.mpr ⟨Option.isSome_iff_exists.mpr ⟨_, hresolve⟩, htext⟩
  · have hread := read_writeBinarySnapshot env (filesWith (dbPath (ascii "a")) content)
      (opened (ascii "a") 0) state
    rw [htext] at hread
    exact hread.trans (congrArg (Option.map _) hresolve)

/-- An empty snapshot stays as it was. -/
theorem writeBinarySnapshot_keeps_empty :
    let env := { Env.calm with lz4 := literals }
    let state := (∅ : Store).insert (ascii "k") (List.replicate LZ4_MAX_INPUT_SIZE 0)
    let left := (opened (ascii "a") 0).writeBinarySnapshot env
      (filesWith (dbPath (ascii "a")) []) state
    (∃ e, left.2 = .error e) ∧ left.1.read (dbPath (ascii "a")) = some [] := by
  intro env state left
  have hthrows : ∃ e, left.2 = .error e := (writeBinarySnapshot_refused []).1
  have hold : (filesWith (dbPath (ascii "a")) []).read (opened (ascii "a") 0).dbFilepath =
      some [] := read_filesWith (dbPath (ascii "a")) []
  exact ⟨hthrows, (writeBinarySnapshot_keeps_iff env state hold).mpr (Or.inr (Or.inr rfl)) hthrows⟩

/-- Any other is lost. -/
theorem not_writeBinarySnapshot_keeps :
    let env := { Env.calm with lz4 := literals }
    let state := (∅ : Store).insert (ascii "k") (List.replicate LZ4_MAX_INPUT_SIZE 0)
    let left := (opened (ascii "a") 0).writeBinarySnapshot env
      (filesWith (dbPath (ascii "a")) [84]) state
    (filesWith (dbPath (ascii "a")) [84]).read (dbPath (ascii "a")) = some [84] ∧
      (∃ e, left.2 = .error e) ∧ left.1.read (dbPath (ascii "a")) = some [] :=
  ⟨read_filesWith (dbPath (ascii "a")) [84], writeBinarySnapshot_refused [84]⟩

end Log

end Taproot
