/-
Typed reads that run out of bytes.

`read` checks before it moves, so a fixed-width value is read whole or not at all. A varint is read byte by byte and a
string as a length and a payload: where the bytes end inside such a value, `std::out_of_range` leaves the function with
the cursor already behind the first part of it. What a reader makes of the readable bytes is a function of the bytes
alone (`scanVarint`, `Format.lenOf`), and each reader is compared with it once.

- `typed_read_atomic_iff`: a typed read is all or nothing, in a given state, if and only if the bytes do not end inside
  its value behind a part that was read.
-/
import Mathlib.Tactic
import Sylar.ByteArray.Model
import Sylar.ByteArray.Invariant
import Sylar.ByteArray.Refine
import Sylar.ByteArray.Codec
import Sylar.ByteArray.Scatter
import Sylar.ByteArray.Zigzag64
import Sylar.ByteArray.Strings

namespace Sylar.ByteArray

open Sylar.Core

/-- if `m` throws `std::out_of_range`, the array is as it was -/
def Atomic {α : Type} (m : M α) (ba : ByteArray) : Prop :=
  ∀ what ba', m ba = (.error (.outOfRange what), ba') →
    ba'.position = ba.position ∧ ba'.size = ba.size ∧ ba'.cur = ba.cur ∧ ba'.contents = ba.contents

section Rules

variable {α β : Type} {m : M α} {ba ba' : ByteArray}

theorem atomic_of_ok {a : α} (h : m ba = (.ok a, ba')) : Atomic m ba := by
  intro what b hb
  rw [h] at hb
  cases hb

theorem atomic_of_unmoved {e : Err} (h : m ba = (.error e, ba)) : Atomic m ba := by
  intro what b hb
  rw [h, Prod.mk.injEq] at hb
  obtain rfl := hb.2
  exact ⟨rfl, rfl, rfl, rfl⟩

theorem not_atomic {what : String} (h : m ba = (.error (.outOfRange what), ba')) (hp : ba'.position ≠ ba.position) :
    ¬Atomic m ba := fun hat => hp (hat what ba' h).1

theorem atomic_map_iff (m : M α) (g : α → β) (ba : ByteArray) : Atomic (do pure (g (← m))) ba ↔ Atomic m ba := by
  rcases h : m ba with ⟨e | a, b⟩
  · simp only [Atomic, h, bind_error h, Prod.mk.injEq, Except.error.injEq]
  · exact iff_of_true (atomic_of_ok (a := g a) (bind_ok h)) (atomic_of_ok h)

end Rules

/-! ## Fixed width -/

/-- the value that `k` bytes stand for -/
def fixedValue (host e : Endian) (k : ℕ) (bs : List UInt8) : BitVec (8 * k) :=
  if e = host then ofImage host k bs else byteswap k (ofImage host k bs)

theorem image_ofImage (host : Endian) {k : ℕ} {bs : List UInt8} (h : bs.length = k) :
    image host k (ofImage host k bs) = bs := by
  cases host with
  | little => exact toLE_ofNat_ofLE h
  | big => rw [image, ofImage, toLE_ofNat_ofLE (by rw [List.length_reverse, h]), List.reverse_reverse]

theorem fixedBytes_fixedValue (host e : Endian) {k : ℕ} {bs : List UInt8} (h : bs.length = k) :
    fixedBytes host e k (fixedValue host e k bs) = bs := by
  by_cases he : e = host
  · rw [fixedBytes, fixedValue, if_neg (by simpa using he), if_pos he, image_ofImage host h]
  · rw [fixedBytes, fixedValue, if_pos he, if_neg he, byteswap_byteswap, image_ofImage host h]

theorem readFixed_short (host : Endian) {k : ℕ} {ba : ByteArray} (h : ba.getReadSize < k) :
    readFixed host k ba = (.error (.outOfRange "not enough len"), ba) := bind_error (read_throws h)

/-- any `k` readable bytes are some value -/
theorem readFixed_enough (host : Endian) {k : ℕ} (hk : 1 ≤ k) {ba : ByteArray} {f : Flat} (h : Rel ba f)
    (hlen : k ≤ f.rest.length) :
    ∃ ba' f', readFixed host k ba = (.ok (fixedValue host ba.endian k (f.rest.take k)), ba') ∧ Rel ba' f' ∧
      f'.rest = f.rest.drop k ∧ ba'.position = ba.position + k := by
  have htake : (f.rest.take k).length = k := by rw [List.length_take, min_eq_left hlen]
  have hbytes := fixedBytes_fixedValue host ba.endian htake
  have hsplit :
      f.rest = fixedBytes host ba.endian k (fixedValue host ba.endian k (f.rest.take k)) ++ f.rest.drop k := by
    rw [hbytes, List.take_append_drop]
  obtain ⟨ba', f', h1, hrel, -, -, hpos, hrest⟩ := decodes_fixed host ba.endian k _ hk ba f _ h rfl hsplit
  refine ⟨ba', f', h1, hrel, hrest, ?_⟩
  rw [hrel.pos, hpos, hbytes, htake, h.pos]

theorem atomic_fixed (host : Endian) {k : ℕ} (hk : 1 ≤ k) {ba : ByteArray} (h : Inv ba) :
    Atomic (readFixed host k) ba := by
  obtain ⟨f, hrel⟩ := h.exists_flat
  by_cases hlen : k ≤ f.rest.length
  · obtain ⟨ba', f', h1, -⟩ := readFixed_enough host hk hrel hlen
    exact atomic_of_ok h1
  · rw [f.rest_length, ← hrel.readSize] at hlen
    exact atomic_of_unmoved (readFixed_short host (by omega))

/-! ## Varints -/

/-- the loop of `readUint32` and `readUint64` on the bytes themselves: the value and what is behind it -/
def scanVarint (w : ℕ) : ℕ → ℕ → BitVec w → List UInt8 → Option (BitVec w × List UInt8)
  | 0, _, r, bs => some (r, bs)
  | _ + 1, _, _, [] => none
  | n + 1, i, r, b :: bs =>
    if b.toNat < 0x80 then some (r ||| (b.toBitVec.setWidth w <<< i), bs)
    else scanVarint w n (i + 7) (r ||| ((b.toBitVec &&& 0x7F#8).setWidth w <<< i)) bs

/-- the bytes hold a varint of at most `n` bytes to its end -/
def HasVarint (n : ℕ) (bs : List UInt8) : Prop := n ≤ bs.length ∨ ∃ b ∈ bs, b.toNat < 0x80

theorem scanVarint_isSome_iff (w : ℕ) (n i : ℕ) (r : BitVec w) (bs : List UInt8) :
    (scanVarint w n i r bs).isSome ↔ HasVarint n bs := by
  induction n generalizing i r bs with
  | zero => simp [scanVarint, HasVarint]
  | succ n ih =>
    cases bs with
    | nil => simp [scanVarint, HasVarint]
    | cons b bs =>
      rw [scanVarint]
      split_ifs with hb
      · exact iff_of_true rfl (.inr ⟨b, List.mem_cons_self, hb⟩)
      · rw [ih]
        simp [HasVarint, hb]

theorem readFuint8_nil (host : Endian) {ba : ByteArray} {f : Flat} (h : Rel ba f) (hnil : f.rest = []) :
    readFuint8 host ba = (.error (.outOfRange "not enough len"), ba) := by
  have hsize : ba.getReadSize < 1 := by rw [h.readSize, ← f.rest_length, hnil]; decide
  exact bind_error (read_throws hsize)

theorem readFuint8_cons (host : Endian) {ba : ByteArray} {f : Flat} (h : Rel ba f) {b : UInt8} {bs : List UInt8}
    (hcons : f.rest = b :: bs) :
    ∃ ba' f', readFuint8 host ba = (.ok b.toBitVec, ba') ∧ Rel ba' f' ∧ f'.rest = bs ∧ ba'.position = ba.position + 1 := by
  have hdec := decodes_byte_ofNat host ba.endian b.toNat b.toNat_lt
  rw [UInt8.ofNat_toNat, show BitVec.ofNat 8 b.toNat = b.toBitVec by simp] at hdec
  obtain ⟨ba', f', h1, hrel, -, -, hpos, hrest⟩ := hdec ba f bs h rfl (by rw [hcons, List.singleton_append])
  exact ⟨ba', f', h1, hrel, hrest, by rw [hrel.pos, hpos, h.pos]; rfl⟩

/-- where the bytes end inside the varint, all of them have been consumed -/
theorem readVarint_none (host : Endian) (w : ℕ) {n i : ℕ} {r : BitVec w} {ba : ByteArray} {f : Flat} (h : Rel ba f)
    (hnone : scanVarint w n i r f.rest = none) :
    ∃ ba', readVarint host w n i r ba = (.error (.outOfRange "not enough len"), ba') ∧
      ba'.position = ba.position + f.rest.length := by
  induction n generalizing i r ba f with
  | zero => cases hnone
  | succ n ih =>
    rw [readVarint]
    cases hrest : f.rest with
    | nil => exact ⟨ba, bind_error (readFuint8_nil host h hrest), rfl⟩
    | cons b bs =>
      obtain ⟨b1, f1, h1, hrel, hrest₁, hpos⟩ := readFuint8_cons host h hrest
      rw [hrest, scanVarint] at hnone
      rw [bind_ok h1]
      have hb : b.toBitVec.toNat = b.toNat := rfl
      rw [hb]
      split_ifs at hnone ⊢ with hlt
      rw [← hrest₁] at hnone
      obtain ⟨b2, h2, hpos₂⟩ := ih hrel hnone
      refine ⟨b2, h2, ?_⟩
      rw [hpos₂, hpos, hrest₁, List.length_cons]
      omega

theorem readVarint_some (host : Endian) (w : ℕ) {n i : ℕ} {r v : BitVec w} {t : List UInt8} {ba : ByteArray} {f : Flat}
    (h : Rel ba f) (hsome : scanVarint w n i r f.rest = some (v, t)) :
    ∃ ba' f', readVarint host w n i r ba = (.ok v, ba') ∧ Rel ba' f' ∧ f'.rest = t ∧ ba.position ≤ ba'.position ∧
      (n ≠ 0 → ba.position < ba'.position) := by
  induction n generalizing i r ba f with
  | zero =>
    rw [scanVarint, Option.some.injEq, Prod.mk.injEq] at hsome
    obtain ⟨rfl, rfl⟩ := hsome
    exact ⟨ba, f, rfl, h, rfl, le_rfl, fun h0 => absurd rfl h0⟩
  | succ n ih =>
    rw [readVarint]
    cases hrest : f.rest with
    | nil =>
      rw [hrest, scanVarint] at hsome
      cases hsome
    | cons b bs =>
      obtain ⟨b1, f1, h1, hrel, hrest₁, hpos⟩ := readFuint8_cons host h hrest
      rw [hrest, scanVarint] at hsome
      rw [bind_ok h1]
      have hb : b.toBitVec.toNat = b.toNat := rfl
      rw [hb]
      split_ifs at hsome ⊢ with hlt
      · rw [Option.some.injEq, Prod.mk.injEq] at hsome
        obtain ⟨rfl, rfl⟩ := hsome
        exact ⟨b1, f1, rfl, hrel, hrest₁, by omega, fun _ => by omega⟩
      · rw [← hrest₁] at hsome
        obtain ⟨b2, f2, h2, hrel₂, hrest₂, hpos₂, -⟩ := ih hrel hsome
        exact ⟨b2, f2, h2, hrel₂, hrest₂, by omega, fun _ => by omega⟩

theorem atomic_varint_iff (host : Endian) (w : ℕ) {n : ℕ} (hn : n ≠ 0) {ba : ByteArray} {f : Flat} (h : Rel ba f) :
    Atomic (readVarint host w n 0 0) ba ↔ f.rest = [] ∨ HasVarint n f.rest := by
  rw [← scanVarint_isSome_iff w n 0 0]
  rcases hscan : scanVarint w n 0 0 f.rest with - | ⟨v, t⟩
  · obtain ⟨ba', h1, hpos⟩ := readVarint_none host w h hscan
    by_cases hnil : f.rest = []
    · refine iff_of_true ?_ (.inl hnil)
      obtain ⟨n, rfl⟩ := Nat.exists_eq_succ_of_ne_zero hn
      exact atomic_of_unmoved (bind_error (readFuint8_nil host h hnil))
    · have hlen := List.length_pos_iff.mpr hnil
      refine iff_of_false (not_atomic h1 (by omega)) ?_
      rintro (hnil' | hsome)
      · exact hnil hnil'
      · cases hsome
  · obtain ⟨ba', f', h1, -⟩ := readVarint_some host w h hscan
    exact iff_of_true (atomic_of_ok h1) (.inr rfl)

/-! ## Strings -/

/-- the length at the head of the bytes, and the bytes behind it -/
def Format.lenOf (host e : Endian) : Format → List UInt8 → Option (ℕ × List UInt8)
  | .f16, bs => if 2 ≤ bs.length then some ((fixedValue host e 2 (bs.take 2)).toNat, bs.drop 2) else none
  | .f32, bs => if 4 ≤ bs.length then some ((fixedValue host e 4 (bs.take 4)).toNat, bs.drop 4) else none
  | .f64, bs => if 8 ≤ bs.length then some ((fixedValue host e 8 (bs.take 8)).toNat, bs.drop 8) else none
  | .vint, bs => (scanVarint 64 10 0 0 bs).map fun r => (r.1.toNat, r.2)

theorem atomic_len_iff (host : Endian) (fmt : Format) {ba : ByteArray} {f : Flat} (h : Rel ba f) :
    Atomic (fmt.readLen host) ba ↔ (fmt = .vint → f.rest = [] ∨ HasVarint 10 f.rest) := by
  cases fmt with
  | f16 => exact iff_of_true ((atomic_map_iff _ _ ba).mpr (atomic_fixed host (by omega) h.inv)) nofun
  | f32 => exact iff_of_true ((atomic_map_iff _ _ ba).mpr (atomic_fixed host (by omega) h.inv)) nofun
  | f64 => exact iff_of_true ((atomic_map_iff _ _ ba).mpr (atomic_fixed host (by omega) h.inv)) nofun
  | vint =>
    rw [Format.readLen, atomic_map_iff, readUint64, atomic_varint_iff host 64 (by omega) h]
    exact ⟨fun hc _ => hc, fun hc => hc rfl⟩

theorem readLen_none (host : Endian) (fmt : Format) {ba : ByteArray} {f : Flat} (h : Rel ba f)
    (hnone : fmt.lenOf host ba.endian f.rest = none) : ∃ ba' e, fmt.readLen host ba = (.error e, ba') := by
  have hfixed : ∀ k, ¬k ≤ f.rest.length → ∃ ba' e, readFixed host k ba = (.error e, ba') := by
    intro k hk
    rw [f.rest_length, ← h.readSize] at hk
    exact ⟨ba, _, readFixed_short host (by omega)⟩
  cases fmt with
  | f16 | f32 | f64 =>
    simp only [Format.lenOf] at hnone
    split_ifs at hnone with hk
    obtain ⟨ba', e, herr⟩ := hfixed _ hk
    exact ⟨ba', e, bind_error herr⟩
  | vint =>
    simp only [Format.lenOf, Option.map_eq_none_iff] at hnone
    obtain ⟨ba', herr, -⟩ := readVarint_none host 64 h hnone
    exact ⟨ba', _, bind_error herr⟩

theorem readLen_some (host : Endian) (fmt : Format) {ba : ByteArray} {f : Flat} (h : Rel ba f) {len : ℕ}
    {t : List UInt8}
    (hsome : fmt.lenOf host ba.endian f.rest = some (len, t)) :
    ∃ ba' f', fmt.readLen host ba = (.ok len, ba') ∧ Rel ba' f' ∧ f'.rest = t ∧ ba.position < ba'.position := by
  have hfixed : ∀ k, 1 ≤ k → k ≤ f.rest.length → (fixedValue host ba.endian k (f.rest.take k)).toNat = len →
      f.rest.drop k = t → ∃ ba' f', (do pure (← readFixed host k).toNat : M ℕ) ba = (.ok len, ba') ∧ Rel ba' f' ∧
        f'.rest = t ∧ ba.position < ba'.position := by
    rintro k hk hle rfl rfl
    obtain ⟨ba', f', h1, hrel, hrest, hpos⟩ := readFixed_enough host hk h hle
    exact ⟨ba', f', bind_ok h1, hrel, hrest, by omega⟩
  cases fmt with
  | f16 | f32 | f64 =>
    simp only [Format.lenOf] at hsome
    split_ifs at hsome with hk
    rw [Option.some.injEq, Prod.mk.injEq] at hsome
    exact hfixed _ (by omega) hk hsome.1 hsome.2
  | vint =>
    simp only [Format.lenOf, Option.map_eq_some_iff, Prod.mk.injEq] at hsome
    obtain ⟨⟨v, t'⟩, hscan, rfl, rfl⟩ := hsome
    obtain ⟨ba', f', h1, hrel, hrest, -, hmoved⟩ := readVarint_some host 64 h hscan
    exact ⟨ba', f', bind_ok h1, hrel, hrest, hmoved (by omega)⟩

/-- a payload is too long for a string, missing, or there -/
theorem readBuff_cases {ba : ByteArray} (h : Inv ba) (len : ℕ) :
    (maxSize < len ∧ readBuff len ba = (.error .lengthError, ba)) ∨
      (len ≤ maxSize ∧ ba.getReadSize < len ∧ readBuff len ba = (.error (.outOfRange "not enough len"), ba)) ∨
      (len ≤ ba.getReadSize ∧ ∀ what ba', readBuff len ba ≠ (.error (.outOfRange what), ba')) := by
  by_cases hmax : maxSize < len
  · have hres : resize len ba = (.error .lengthError, ba) := by rw [resize, if_pos hmax]
    exact .inl ⟨hmax, bind_error hres⟩
  have hbuff : readBuff len ba = read len ba := bind_ok (resize_ok (not_lt.mp hmax) ba)
  rw [hbuff]
  by_cases hlen : ba.getReadSize < len
  · exact .inr (.inl ⟨not_lt.mp hmax, hlen, read_throws hlen⟩)
  refine .inr (.inr ⟨not_lt.mp hlen, ?_⟩)
  intro what ba' herr
  rcases Nat.eq_zero_or_pos len with rfl | hpos
  · rw [read_zero h] at herr
    split_ifs at herr
    · cases herr
    · cases herr
  · obtain ⟨b, h1, -⟩ := read_spec h hpos (not_lt.mp hlen)
    rw [h1] at herr
    cases herr

/-- the bytes do not end inside the string with a part of it already read: no more than a fixed-width length is
missing, or the payload is there, or no string is that long -/
def Format.Uncut (host e : Endian) (fmt : Format) (bs : List UInt8) : Prop :=
  match fmt.lenOf host e bs with
  | none => fmt = .vint → bs = []
  | some (len, t) => len ≤ t.length ∨ maxSize < len

theorem atomic_string_iff (host : Endian) (fmt : Format) {ba : ByteArray} {f : Flat} (h : Rel ba f) :
    Atomic (fmt.read host) ba ↔ fmt.Uncut host ba.endian f.rest := by
  rw [fmt.read_eq host, Format.Uncut]
  rcases hlen : fmt.lenOf host ba.endian f.rest with - | ⟨len, t⟩
  · -- the length itself is cut: as atomic as its read
    obtain ⟨ba', e, herr⟩ := readLen_none host fmt h hlen
    have hsame : Atomic (fmt.readLen host >>= readBuff) ba ↔ Atomic (fmt.readLen host) ba := by
      simp only [Atomic, herr, bind_error herr, Prod.mk.injEq, Except.error.injEq]
    rw [hsame, atomic_len_iff host fmt h]
    refine forall_congr' fun hv => ?_
    subst hv
    rw [Format.lenOf, Option.map_eq_none_iff] at hlen
    rw [← scanVarint_isSome_iff 64 10 0 0, hlen]
    simp
  · obtain ⟨b1, f1, h1, hrel, hrest, hmoved⟩ := readLen_some host fmt h hlen
    have hread : (fmt.readLen host >>= readBuff) ba = readBuff len b1 := bind_ok h1
    have hsize : b1.getReadSize = t.length := by rw [hrel.readSize, ← f1.rest_length, hrest]
    dsimp only
    rw [← hsize]
    obtain ⟨hmax, herr⟩ | ⟨hmax, hcut, herr⟩ | ⟨hthere, hnone⟩ := readBuff_cases hrel.inv len
    · refine iff_of_true ?_ (.inr hmax)
      intro what ba' hb
      rw [hread, herr] at hb
      cases hb
    · refine iff_of_false (not_atomic (hread.trans herr) (by omega)) ?_
      rintro (hle | hgt)
      · omega
      · omega
    · refine iff_of_true ?_ (.inl hthere)
      intro what ba' hb
      rw [hread] at hb
      exact absurd hb (hnone what ba')

/-! ## All typed reads -/

/-- the most bytes a varint type takes -/
def Ty.rounds : Ty → Option ℕ
  | int32 | uint32 => some 5
  | uint64 => some 10
  | fint8 | fuint8 | fint16 | fuint16 | fint32 | fuint32 | fint64 | fuint64 | float | double => none

theorem atomic_ty_iff (host : Endian) (t : Ty) {ba : ByteArray} {f : Flat} (h : Rel ba f) :
    Atomic (t.read host) ba ↔ ∀ n, t.rounds = some n → f.rest = [] ∨ HasVarint n f.rest := by
  have hbyte : Atomic (do pure (ofImage host 1 (← read 1)) : M (BitVec 8)) ba := by
    rw [atomic_map_iff]
    by_cases hlen : ba.getReadSize < 1
    · exact atomic_of_unmoved (read_throws hlen)
    · obtain ⟨b, h1, -⟩ := read_spec h.inv le_rfl (not_lt.mp hlen)
      exact atomic_of_ok h1
  cases t with
  | fint8 | fuint8 => exact iff_of_true hbyte nofun
  | fint16 | fuint16 | fint32 | fuint32 | fint64 | fuint64 | float | double =>
    exact iff_of_true (atomic_fixed host (by omega) h.inv) nofun
  | uint32 | uint64 =>
    refine (atomic_varint_iff host _ (by omega) h).trans ?_
    simp [Ty.rounds]
  | int32 =>
    refine (atomic_map_iff _ _ ba).trans ((atomic_varint_iff host _ (by omega) h).trans ?_)
    simp [Ty.rounds]

/-- **Failed typed reads.** In every reachable state: a read of a fixed-width value that throws `std::out_of_range`
leaves the array as it was. A varint read does so if and only if there is no byte to read, or the bytes hold a varint
to its end; a string read if and only if `Uncut` holds of its bytes. -/
theorem typed_read_atomic_iff (host : Endian) (ba : ByteArray) (h : Reachable ba) :
    (∀ t : Ty, Atomic (t.read host) ba ↔ ∀ n, t.rounds = some n →
      ba.contents.drop ba.position = [] ∨ HasVarint n (ba.contents.drop ba.position)) ∧
    (Atomic (readInt64 host) ba ↔
      ba.contents.drop ba.position = [] ∨ HasVarint 10 (ba.contents.drop ba.position)) ∧
    ∀ fmt : Format, Atomic (fmt.read host) ba ↔ fmt.Uncut host ba.endian (ba.contents.drop ba.position) := by
  obtain ⟨f, hrel⟩ := h.inv.exists_flat
  rw [hrel.rest]
  refine ⟨fun t => atomic_ty_iff host t hrel, ?_, fun fmt => atomic_string_iff host fmt hrel⟩
  rw [readInt64, atomic_map_iff, readUint64, atomic_varint_iff host 64 (by omega) hrel]

theorem typed_read_atomic_iff_two : Atomic (Ty.uint32.read .little) (written [0x80, 1] 0) := by
  refine ((typed_read_atomic_iff .little (written [0x80, 1] 0) (reachable_written _ _)).1 .uint32).mpr ?_
  intro n _
  exact .inr (.inr ⟨1, by decide, by decide⟩)

/-- one byte of a varint is gone, and so is the length of a string whose payload is missing -/
theorem typed_read_consumes :
    Reachable (written [0x80] 0) ∧ ¬Atomic (Ty.uint32.read .little) (written [0x80] 0) ∧
      Reachable (written [0, 3, 1] 0) ∧ ¬Atomic (readStringF16 .little) (written [0, 3, 1] 0) :=
  ⟨reachable_written _ _, not_atomic rfl (by decide), reachable_written _ _, not_atomic rfl (by decide)⟩

end Sylar.ByteArray
