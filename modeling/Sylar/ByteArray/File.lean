/-
Export to a file and import from one (`writeToFile`, `readFromFile`).

A file is the bytes written to it, and reading hands them out in order. The export takes one piece from each block on
its way; the length of a piece is `min(read_size, m_baseSize) - diff`, which is what the block holds behind the offset
`diff` only if the block, and not the data, is what ends the piece. With less than a block to write and a cursor
inside a block the pieces come out short, empty or negative, and the loop goes on into blocks that do not hold the
data. `diff` is an `int`.

- `file_roundtrip_iff`: when the file holds the readable bytes, and any array filled from it the same string.
-/
import Mathlib.Tactic
import Sylar.Core.Splice
import Sylar.ByteArray.Model
import Sylar.ByteArray.Invariant
import Sylar.ByteArray.Refine
import Sylar.ByteArray.Codec
import Sylar.ByteArray.Scatter
import Sylar.Http.Stream

namespace Sylar.ByteArray

open Sylar.Core Sylar.Http

/-! ## Export -/

/-- how the export can fail: a null `Node*` followed, or `ofs.write` with a negative count or a range outside its
block -/
inductive FileErr where
  | nullNode
  | badRange
deriving DecidableEq, Repr

/-- the loop of `writeToFile` along the nodes from `cur` on; a piece is checked before it is written, so that `pos` and
`read_size` stay natural numbers -/
def writeToFileLoop (base : ℕ) : List Node → ℕ → ℕ → Except FileErr (List UInt8)
  | [], _, read_size => if read_size > 0 then .error .nullNode else .ok []
  | nd :: rest, pos, read_size =>
    if read_size > 0 then
      let diff : ℤ := toInt32 (pos % base : ℕ)
      let len : ℤ := (if read_size > base then base else read_size : ℕ) - diff
      if 0 ≤ diff ∧ 0 ≤ len ∧ diff + len ≤ nd.size then
        (writeToFileLoop base rest (pos + len.toNat) (read_size - len.toNat)).map fun bs =>
          (nd.ptr.drop diff.toNat).take len.toNat ++ bs
      else .error .badRange
    else .ok []

/-- `writeToFile(name)`: what it returns, and the bytes of the file; `opened` is whether the file could be opened -/
def writeToFile (opened : Bool) (ba : ByteArray) : Except FileErr (Bool × List UInt8) :=
  if !opened then .ok (false, [])
  else (writeToFileLoop ba.baseSize ba.chain ba.position ba.getReadSize).map fun bs => (true, bs)

/-! ## Import -/

/-- an `std::ifstream`: the bytes still to come, and whether a read has met their end -/
structure Ifs where
  rest : List UInt8
  eof : Bool
deriving DecidableEq, Repr

/-- `ifs.read(buff, n)`: the bytes it stores, `gcount()` of them -/
def Ifs.read (ifs : Ifs) (n : ℕ) : List UInt8 × Ifs :=
  (ifs.rest.take n, ⟨ifs.rest.drop n, ifs.eof || decide (ifs.rest.length < n)⟩)

/-- the loop of `readFromFile`, for at most `fuel` tests of `ifs.eof()` -/
def readFromFileLoop (junk : ℕ → UInt8) : ℕ → Ifs → ByteArray → Option (Except Err Unit × ByteArray)
  | 0, _, _ => none
  | fuel + 1, ifs, ba =>
    if ifs.eof then some (.ok (), ba)
    else
      match ifs.read ba.baseSize with
      | (buff, ifs) =>
        match write buff junk ba with
        | (.error e, ba) => some (.error e, ba)
        | (.ok (), ba) => readFromFileLoop junk fuel ifs ba

/-- `readFromFile(name)`; no file is one that cannot be opened -/
def readFromFile (fuel : ℕ) (junk : ℕ → UInt8) (file : Option (List UInt8)) (ba : ByteArray) :
    Option (Except Err Bool × ByteArray) :=
  match file with
  | none => some (.ok false, ba)
  | some bs => (readFromFileLoop junk fuel ⟨bs, false⟩ ba).map fun r => (r.1.map fun _ => true, r.2)

/-- the import is a write of the file, in blocks -/
theorem readFromFileLoop_spec (junk : ℕ → UInt8) {fuel : ℕ} {bs : List UInt8} {ba : ByteArray} {f : Flat} (h : Rel ba f)
    (hfuel : bs.length + 2 ≤ fuel) :
    ∃ ba', readFromFileLoop junk fuel ⟨bs, false⟩ ba = some (.ok (), ba') ∧ Rel ba' (f.write bs) := by
  induction fuel generalizing bs ba f with
  | zero => omega
  | succ fuel ih =>
    have hb := h.inv.base_pos
    obtain ⟨b1, h1, hrel, -⟩ := write_rel h (bs.take ba.baseSize) junk
    simp only [readFromFileLoop, Ifs.read, Bool.false_eq_true, if_false, Bool.false_or, h1]
    by_cases hlast : bs.length < ba.baseSize
    · obtain ⟨k, rfl⟩ : ∃ k, fuel = k + 1 := ⟨fuel - 1, by omega⟩
      refine ⟨b1, by simp [readFromFileLoop, hlast], ?_⟩
      rwa [List.take_of_length_le hlast.le] at hrel
    · obtain ⟨b2, h2, hrel₂⟩ := ih hrel
        (show (bs.drop ba.baseSize).length + 2 ≤ fuel by rw [List.length_drop]; omega)
      refine ⟨b2, by simpa [hlast] using h2, ?_⟩
      rwa [Flat.write_write, List.take_append_drop] at hrel₂

/-- **Import.** A fresh array filled from a file and rewound is the file. -/
theorem readFromFile_spec (junk : ℕ → UInt8) {base : ℕ} (hb : 1 ≤ base) (file : List UInt8) :
    ∃ fuel b1 b2, readFromFile fuel junk (some file) (new base junk) = some (.ok true, b1) ∧
      setPosition 0 b1 = (.ok (), b2) ∧ toString b2 = (.ok file, b2) := by
  obtain ⟨b1, h1, hrel⟩ := readFromFileLoop_spec junk (rel_new base junk hb) (le_refl (file.length + 2))
  obtain ⟨b2, h2, hrel₂, -⟩ := setPosition_rel hrel (Nat.zero_le _)
  refine ⟨file.length + 2, b1, b2, by simp [readFromFile, h1, Except.map], h2, ?_⟩
  have hcont : (Flat.empty.write file).contents = file := by
    show splice [] 0 file = file
    simp [splice]
  rw [toString_spec hrel₂.inv, hrel₂.rest, Flat.rest, Flat.seek, List.drop_zero, hcont]

/-! ## What the export loop writes -/

section Export

variable {base : ℕ}

theorem writeToFileLoop_done (base : ℕ) (c : List Node) (pos : ℕ) : writeToFileLoop base c pos 0 = .ok [] := by
  cases c with
  | nil => rfl
  | cons nd rest => rfl

/-- one round that writes `len` bytes from offset `pos % base` on, where `len` is what the source computes -/
theorem writeToFileLoop_piece {nd : Node} (hsz : nd.size = base) (rest : List Node) {pos rs : ℕ} (len : ℕ)
    (hrs : 0 < rs)
    (hint : pos % base < 2147483648) (hlen : min rs base = pos % base + len) (hfit : pos % base + len ≤ base) :
    writeToFileLoop base (nd :: rest) pos rs =
      (writeToFileLoop base rest (pos + len) (rs - len)).map fun bs => (nd.ptr.drop (pos % base)).take len ++ bs := by
  have hdiff : toInt32 (pos % base : ℕ) = (pos % base : ℕ) := toInt32_of_lt (by omega) (by omega)
  have hmin : (if rs > base then base else rs) = pos % base + len := by
    rw [← hlen]
    split_ifs <;> omega
  have hl : ((pos % base + len : ℕ) : ℤ) - (pos % base : ℕ) = (len : ℕ) := by omega
  simp only [writeToFileLoop, hrs, if_true, hdiff, hmin, hl, hsz, Int.toNat_natCast, gt_iff_lt]
  rw [if_pos ⟨by omega, by omega, by omega⟩]

/-- a round whose piece would be negative -/
theorem writeToFileLoop_negative (nd : Node) (rest : List Node) {pos rs : ℕ} (hrs : 0 < rs)
    (hint : pos % base < 2147483648) (hneg : min rs base < pos % base) :
    writeToFileLoop base (nd :: rest) pos rs = .error .badRange := by
  have hdiff : toInt32 (pos % base : ℕ) = (pos % base : ℕ) := toInt32_of_lt (by omega) (by omega)
  have hmin : (if rs > base then base else rs) = min rs base := by
    split_ifs <;> omega
  simp only [writeToFileLoop, hrs, if_true, hdiff, hmin, gt_iff_lt]
  rw [if_neg (by omega)]

/-- from the start of a block on, each block gives what it holds of the data -/
theorem writeToFileLoop_aligned (c : List Node) {pos rs : ℕ} (hc : Sized base c) (hpos : pos % base = 0)
    (hlen : rs ≤ (memOf c).length) : writeToFileLoop base c pos rs = .ok ((memOf c).take rs) := by
  induction c generalizing pos rs with
  | nil =>
    obtain rfl : rs = 0 := Nat.le_zero.mp hlen
    rfl
  | cons nd rest ih =>
    have hsz : nd.size = base := hc nd List.mem_cons_self
    have hptr : nd.ptr.length = base := hsz
    rcases Nat.eq_zero_or_pos rs with rfl | hrs
    · exact writeToFileLoop_done base _ pos
    rw [memOf_cons, List.length_append, hptr] at hlen
    have htake : nd.ptr.take (min rs base) = nd.ptr.take rs := by rw [← hptr, ← List.take_eq_take_min]
    have hleft : rs - min rs base = rs - base := by omega
    rw [writeToFileLoop_piece hsz rest (min rs base) hrs (by omega) (by omega) (by omega), hpos, List.drop_zero,
      memOf_cons, List.take_append, hptr, htake, hleft]
    by_cases hle : rs ≤ base
    · rw [Nat.sub_eq_zero_of_le hle, writeToFileLoop_done, List.take_zero]
      rfl
    · have hal : (pos + min rs base) % base = 0 := by
        rw [min_eq_right (by omega), Nat.add_mod_right, hpos]
      rw [ih hc.tail hal (by omega)]
      rfl

/-- with a block or more to write, the first piece ends its block and the others start theirs -/
theorem writeToFileLoop_long (hb : 0 < base) {c : List Node} {pos rs : ℕ} (hc : Sized base c)
    (hint : pos % base < 2147483648) (hrs : base ≤ rs) (hlen : pos % base + rs ≤ (memOf c).length) :
    writeToFileLoop base c pos rs = .ok (((memOf c).drop (pos % base)).take rs) := by
  have hmod := Nat.mod_lt pos hb
  match c with
  | [] =>
    rw [memOf_nil, List.length_nil] at hlen
    omega
  | nd :: rest =>
    have hsz : nd.size = base := hc nd List.mem_cons_self
    have hptr : nd.ptr.length = base := hsz
    rw [memOf_cons, List.length_append, hptr] at hlen
    have hal : (pos + (base - pos % base)) % base = 0 := by
      have hd := Nat.div_add_mod pos base
      have : pos + (base - pos % base) = base * (pos / base + 1) := by rw [Nat.mul_succ]; omega
      rw [this, Nat.mul_mod_right]
    rw [writeToFileLoop_piece hsz rest (base - pos % base) (by omega) hint (by omega) (by omega),
      writeToFileLoop_aligned rest hc.tail hal (by omega), memOf_cons, List.drop_append_of_le_length (by omega),
      slice_cross hptr (by omega)]
    rfl

/-- with as much to write as the offset, every piece is empty, until the blocks end -/
theorem writeToFileLoop_stuck (c : List Node) {pos rs : ℕ} (hc : Sized base c) (hint : pos % base < 2147483648)
    (hb : 0 < base) (hrs : 0 < rs) (heq : pos % base = rs) : writeToFileLoop base c pos rs = .error .nullNode := by
  have hmod := Nat.mod_lt pos hb
  induction c with
  | nil => rw [writeToFileLoop, if_pos hrs]
  | cons nd rest ih =>
    have hsz : nd.size = base := hc nd List.mem_cons_self
    rw [writeToFileLoop_piece hsz rest 0 hrs hint (by omega) (by omega), Nat.add_zero, Nat.sub_zero, ih hc.tail]
    rfl

/-- with less than a block to write, an offset in the block is fatal -/
theorem writeToFileLoop_short (c : List Node) (pos rs : ℕ) (hc : Sized base c) (hb : 0 < base)
    (hbase : base ≤ 2147483648) (hoff : 0 < pos % base) (hrs : 0 < rs) (hlt : rs < base) :
    ∃ e, writeToFileLoop base c pos rs = .error e := by
  have hmod := Nat.mod_lt pos hb
  match c with
  | [] => exact ⟨_, by rw [writeToFileLoop, if_pos hrs]⟩
  | nd :: rest =>
    have hsz : nd.size = base := hc nd List.mem_cons_self
    rcases lt_trichotomy rs (pos % base) with hneg | heq | hgt
    · exact ⟨_, writeToFileLoop_negative nd rest hrs (by omega) (by omega)⟩
    · exact ⟨_, writeToFileLoop_stuck _ hc (by omega) hb hrs heq.symm⟩
    · -- the first piece stops `pos % base` bytes short, at offset `rs`: there the next one is negative
      rw [writeToFileLoop_piece hsz rest (rs - pos % base) hrs (by omega) (by omega) (by omega)]
      have hoff' : (pos + (rs - pos % base)) % base = rs := by
        have hd := Nat.div_add_mod pos base
        have : pos + (rs - pos % base) = base * (pos / base) + rs := by omega
        rw [this, Nat.mul_add_mod, Nat.mod_eq_of_lt hlt]
      match rest with
      | [] => exact ⟨_, by rw [writeToFileLoop, if_pos (by omega)]; rfl⟩
      | nd' :: rest' => exact ⟨_, by rw [writeToFileLoop_negative nd' rest' (by omega) (by omega) (by omega)]; rfl⟩

end Export

/-! ## Export and import -/

/-- the export returns with the bytes of `toString()` in the file, and every fresh array filled from it and rewound
has the same string -/
def FileRoundTrips (ba : ByteArray) : Prop :=
  ∃ file, writeToFile true ba = .ok (true, file) ∧ toString ba = (.ok file, ba) ∧
    ∀ base junk, 1 ≤ base → ∃ fuel b1 b2, readFromFile fuel junk (some file) (new base junk) = some (.ok true, b1) ∧
      setPosition 0 b1 = (.ok (), b2) ∧ toString b2 = (.ok file, b2)

theorem fileRoundTrips_of_written {ba : ByteArray} (h : Inv ba)
    (hw : writeToFileLoop ba.baseSize ba.chain ba.position ba.getReadSize = .ok (ba.contents.drop ba.position)) :
    FileRoundTrips ba := by
  refine ⟨ba.contents.drop ba.position, ?_, toString_spec h, fun base junk hb => readFromFile_spec junk hb _⟩
  rw [writeToFile, hw]
  rfl

theorem not_fileRoundTrips {ba : ByteArray} {e : FileErr}
    (hw : writeToFileLoop ba.baseSize ba.chain ba.position ba.getReadSize = .error e) : ¬FileRoundTrips ba := by
  rintro ⟨file, hfile, -⟩
  rw [writeToFile, hw] at hfile
  cases hfile

/-- the readable bytes, seen from the current node -/
theorem Inv.readable_eq {ba : ByteArray} (h : Inv ba) :
    ((memOf ba.chain).drop (ba.position % ba.baseSize)).take ba.getReadSize = ba.contents.drop ba.position := by
  have hlen : (ba.contents.drop ba.position).length = ba.getReadSize := by
    rw [List.length_drop, h.contents_length, getReadSize]
  rw [h.drop_chain, h.slice_contents le_rfl, List.take_of_length_le hlen.le]

/-- **Export and import.** In every reachable state the file holds the readable bytes, and any array filled from it
the same string, if there is nothing to write, or the cursor is at the start of a block, or there is at least a block
to write and the offset in the block is an `int`. With blocks of at most 2^31 bytes, whose offsets are, it is so only
then. -/
theorem file_roundtrip_iff (ba : ByteArray) (h : Reachable ba) :
    ((ba.getReadSize = 0 ∨ ba.position % ba.baseSize = 0 ∨
      (ba.baseSize ≤ ba.getReadSize ∧ ba.position % ba.baseSize < 2 ^ 31)) → FileRoundTrips ba) ∧
    (ba.baseSize ≤ 2 ^ 31 → FileRoundTrips ba →
      ba.getReadSize = 0 ∨ ba.position % ba.baseSize = 0 ∨
        (ba.baseSize ≤ ba.getReadSize ∧ ba.position % ba.baseSize < 2 ^ 31)) := by
  have hinv := h.inv
  have hmod := hinv.mod_lt
  have hsize := hinv.size_le
  have hrs : ba.getReadSize = ba.size - ba.position := rfl
  have hlen := hinv.chain_length
  refine ⟨?_, ?_⟩
  · rintro (h0 | hal | ⟨hlong, hint⟩)
    · apply fileRoundTrips_of_written hinv
      rw [← hinv.readable_eq, h0, writeToFileLoop_done, List.take_zero]
    · apply fileRoundTrips_of_written hinv
      rw [← hinv.readable_eq, hal, List.drop_zero]
      exact writeToFileLoop_aligned _ hinv.chain_sized hal (by omega)
    · apply fileRoundTrips_of_written hinv
      rw [← hinv.readable_eq]
      exact writeToFileLoop_long hinv.base_pos hinv.chain_sized (by omega) hlong (by omega)
  · intro hbase hrt
    by_contra hno
    obtain ⟨e, herr⟩ := writeToFileLoop_short ba.chain ba.position ba.getReadSize hinv.chain_sized hinv.base_pos
      (by omega) (by omega) (by omega) (by omega)
    exact not_fileRoundTrips herr hrt

theorem file_roundtrip_iff_inside : FileRoundTrips (written [1, 2, 3, 4] 1) :=
  (file_roundtrip_iff (written [1, 2, 3, 4] 1) (reachable_written _ _)).1 (.inr (.inr (by decide)))

/-- the second byte of a block of two, and nothing behind it: every piece is empty -/
theorem file_export_faults : Reachable (written [1, 2] 1) ∧ ¬FileRoundTrips (written [1, 2] 1) :=
  ⟨reachable_written _ _, not_fileRoundTrips (e := .nullNode) (by decide)⟩

end Sylar.ByteArray
