/-
The typed codecs of `ByteArray`: fixed-width integers in either byte order, base-128 varints, zigzag, and the bit
patterns of floats (`bytearray.cpp`, `endian.h`).

Values are bit vectors of the width of their C type, signed and unsigned alike; signed arithmetic is two's complement
with wraparound. `host` is the byte order of the machine, which is also `SYLAR_BYTE_ORDER`: `image` is what `&value`
points at, and `bswap_16/32/64` reverse it.

Each codec is proved once against a byte string (`Encodes`: the write appends exactly these bytes; `Decodes`: the read
takes exactly these bytes and returns the value), on any array that stands for some flat vector, so block borders
never show. From that:
- `typed_roundtrip`: any list of values of mixed types, each under its own byte order, is read back unchanged, every
  read consuming exactly the bytes of its write.
-/
import Mathlib.Tactic
import Sylar.Core.Splice
import Sylar.Core.LeBytes
import Sylar.ByteArray.Model
import Sylar.ByteArray.Invariant
import Sylar.ByteArray.Refine

namespace Sylar.ByteArray

open Sylar.Core

/-! ## Memory images -/

/-- the bytes at `&value` for a value of `k` bytes -/
def image (host : Endian) (k : ℕ) (v : BitVec (8 * k)) : List UInt8 :=
  match host with
  | .little => toLE k v.toNat
  | .big => (toLE k v.toNat).reverse

/-- the value whose image is `bs` -/
def ofImage (host : Endian) (k : ℕ) (bs : List UInt8) : BitVec (8 * k) :=
  match host with
  | .little => BitVec.ofNat _ (ofLE bs)
  | .big => BitVec.ofNat _ (ofLE bs.reverse)

/-- `byteswap`: `bswap_16`, `bswap_32`, `bswap_64` by the size of the type -/
def byteswap (k : ℕ) (v : BitVec (8 * k)) : BitVec (8 * k) := BitVec.ofNat _ (ofLE (toLE k v.toNat).reverse)

theorem pow_byte (k : ℕ) : 2 ^ (8 * k) = 256 ^ k := by
  rw [pow_mul]; norm_num

theorem toLE_ofNat_ofLE {k : ℕ} {bs : List UInt8} (h : bs.length = k) :
    toLE k (BitVec.ofNat (8 * k) (ofLE bs)).toNat = bs := by
  have hlt : ofLE bs < 256 ^ k := h ▸ ofLE_lt bs
  rw [BitVec.toNat_ofNat, pow_byte, Nat.mod_eq_of_lt hlt, toLE_ofLE_of_length h]

theorem ofNat_ofLE_toLE (k : ℕ) (v : BitVec (8 * k)) : BitVec.ofNat (8 * k) (ofLE (toLE k v.toNat)) = v := by
  have hlt : v.toNat < 256 ^ k := by rw [← pow_byte]; exact v.isLt
  rw [ofLE_toLE _ _ hlt, BitVec.ofNat_toNat, BitVec.setWidth_eq]

theorem byteswap_byteswap (k : ℕ) (v : BitVec (8 * k)) : byteswap k (byteswap k v) = v := by
  rw [byteswap, byteswap, toLE_ofNat_ofLE (by simp), List.reverse_reverse, ofNat_ofLE_toLE]

theorem image_length (host : Endian) (k : ℕ) (v : BitVec (8 * k)) : (image host k v).length = k := by
  cases host <;> simp [image]

theorem ofImage_image (host : Endian) (k : ℕ) (v : BitVec (8 * k)) : ofImage host k (image host k v) = v := by
  cases host with
  | little => exact ofNat_ofLE_toLE k v
  | big => rw [image, ofImage, List.reverse_reverse, ofNat_ofLE_toLE]

/-! ## Fixed width -/

/-- the bodies of `writeFint16` ... `writeFuint64` -/
def writeFixed (host : Endian) (k : ℕ) (value : BitVec (8 * k)) (junk : ℕ → UInt8) : M Unit := do
  let value := if (← get).endian ≠ host then byteswap k value else value
  write (image host k value) junk

/-- the macro behind `readFint16` ... `readFuint64` -/
def readFixed (host : Endian) (k : ℕ) : M (BitVec (8 * k)) := do
  let v := ofImage host k (← read k)
  if (← get).endian = host then pure v else pure (byteswap k v)

def writeFint8 (host : Endian) (value : BitVec 8) (junk : ℕ → UInt8) : M Unit := write (image host 1 value) junk
def writeFuint8 (host : Endian) (value : BitVec 8) (junk : ℕ → UInt8) : M Unit := write (image host 1 value) junk
def writeFint16 (host : Endian) (value : BitVec 16) (junk : ℕ → UInt8) : M Unit := writeFixed host 2 value junk
def writeFuint16 (host : Endian) (value : BitVec 16) (junk : ℕ → UInt8) : M Unit := writeFixed host 2 value junk
def writeFint32 (host : Endian) (value : BitVec 32) (junk : ℕ → UInt8) : M Unit := writeFixed host 4 value junk
def writeFuint32 (host : Endian) (value : BitVec 32) (junk : ℕ → UInt8) : M Unit := writeFixed host 4 value junk
def writeFint64 (host : Endian) (value : BitVec 64) (junk : ℕ → UInt8) : M Unit := writeFixed host 8 value junk
def writeFuint64 (host : Endian) (value : BitVec 64) (junk : ℕ → UInt8) : M Unit := writeFixed host 8 value junk

def readFint8 (host : Endian) : M (BitVec 8) := do pure (ofImage host 1 (← read 1))
def readFuint8 (host : Endian) : M (BitVec 8) := do pure (ofImage host 1 (← read 1))
def readFint16 (host : Endian) : M (BitVec 16) := readFixed host 2
def readFuint16 (host : Endian) : M (BitVec 16) := readFixed host 2
def readFint32 (host : Endian) : M (BitVec 32) := readFixed host 4
def readFuint32 (host : Endian) : M (BitVec 32) := readFixed host 4
def readFint64 (host : Endian) : M (BitVec 64) := readFixed host 8
def readFuint64 (host : Endian) : M (BitVec 64) := readFixed host 8

/-! ## Varints and zigzag -/

/-- the bytes the loops of `writeUint32` and `writeUint64` collect in `tmp` -/
def varint (value : ℕ) : List UInt8 :=
  if value ≥ 0x80 then UInt8.ofNat (value &&& 0x7F ||| 0x80) :: varint (value >>> 7) else [UInt8.ofNat value]
termination_by value
decreasing_by rw [Nat.shiftRight_eq_div_pow]; omega

def writeUint32 (value : BitVec 32) (junk : ℕ → UInt8) : M Unit := write (varint value.toNat) junk
def writeUint64 (value : BitVec 64) (junk : ℕ → UInt8) : M Unit := write (varint value.toNat) junk

/-- the loop of `readUint32` and `readUint64`: `n` rounds left, the next byte shifted by `i` -/
def readVarint (host : Endian) (w : ℕ) : ℕ → ℕ → BitVec w → M (BitVec w)
  | 0, _, result => pure result
  | n + 1, i, result => do
    let b ← readFuint8 host
    if b.toNat < 0x80 then pure (result ||| (b.setWidth w <<< i))
    else readVarint host w n (i + 7) (result ||| ((b &&& 0x7F#8).setWidth w <<< i))

/-- `for (int i = 0; i < 32; i += 7)` -/
def readUint32 (host : Endian) : M (BitVec 32) := readVarint host 32 5 0 0
/-- `for (int i = 0; i < 64; i += 7)` -/
def readUint64 (host : Endian) : M (BitVec 64) := readVarint host 64 10 0 0

def encodeZigzag32 (v : BitVec 32) : BitVec 32 := if v.slt 0#32 then -v * 2#32 - 1#32 else v * 2#32

def decodeZigzag32 (v : BitVec 32) : BitVec 32 := (v >>> 1) ^^^ -(v &&& 1#32)

def writeInt32 (value : BitVec 32) (junk : ℕ → UInt8) : M Unit := writeUint32 (encodeZigzag32 value) junk
def readInt32 (host : Endian) : M (BitVec 32) := do pure (decodeZigzag32 (← readUint32 host))

/-- floats travel as their bit patterns -/
def writeFloat (host : Endian) (value : BitVec 32) (junk : ℕ → UInt8) : M Unit := writeFuint32 host value junk
def writeDouble (host : Endian) (value : BitVec 64) (junk : ℕ → UInt8) : M Unit := writeFuint64 host value junk
def readFloat (host : Endian) : M (BitVec 32) := readFuint32 host
def readDouble (host : Endian) : M (BitVec 64) := readFuint64 host

/-! ## Written and rewound -/

theorem Flat.write_write (f : Flat) (a b : List UInt8) : (f.write a).write b = f.write (a ++ b) := by
  have hc : splice (splice f.contents f.pos a) (f.pos + a.length) b = splice f.contents f.pos (a ++ b) :=
    splice_splice f.contents f.pos a b f.pos_le
  have hp : f.pos + a.length + b.length = f.pos + (a ++ b).length := by rw [List.length_append, Nat.add_assoc]
  simp only [Flat.write, hc, hp]

theorem Flat.pos_le_write (f : Flat) (bs : List UInt8) : f.pos ≤ (f.write bs).size :=
  le_trans (Nat.le_add_right f.pos bs.length) (f.write bs).pos_le

/-- back at the old cursor stand the bytes that were written -/
theorem Flat.rest_rewound (f : Flat) (bs : List UInt8) :
    ((f.write bs).seek f.pos (f.pos_le_write bs)).rest = bs ++ f.contents.drop (f.pos + bs.length) :=
  drop_splice f.contents f.pos bs f.pos_le

/-- an array stands for its own contents -/
theorem Inv.exists_flat {ba : ByteArray} (h : Inv ba) : ∃ f, Rel ba f := by
  have hlen : ba.position ≤ ba.contents.length := by rw [h.contents_length]; exact h.pos_le
  exact ⟨⟨ba.contents, ba.position, hlen⟩, h, rfl, rfl⟩

/-! ## Codecs against byte strings -/

/-- under byte order `e`, the write `m` appends or overwrites exactly `bs` at the cursor -/
def Encodes (m : M Unit) (e : Endian) (bs : List UInt8) : Prop :=
  ∀ ba f, Rel ba f → ba.endian = e → ∃ ba', m ba = (.ok (), ba') ∧ Rel ba' (f.write bs) ∧ ba'.endian = e

/-- under byte order `e`, the read `m` takes exactly `bs` from the cursor and returns `a` -/
def Decodes {α : Type} (m : M α) (e : Endian) (bs : List UInt8) (a : α) : Prop :=
  ∀ ba f r, Rel ba f → ba.endian = e → f.rest = bs ++ r →
    ∃ ba' f', m ba = (.ok a, ba') ∧ Rel ba' f' ∧ ba'.endian = e ∧ f'.contents = f.contents ∧
      f'.pos = f.pos + bs.length ∧ f'.rest = r

theorem encodes_write (e : Endian) (bs : List UInt8) (junk : ℕ → UInt8) : Encodes (write bs junk) e bs := by
  intro ba f h he
  obtain ⟨ba', h1, h2, h3⟩ := write_rel h bs junk
  exact ⟨ba', h1, h2, h3.endian.trans he⟩

theorem decodes_read (e : Endian) (bs : List UInt8) (h0 : 1 ≤ bs.length) : Decodes (read bs.length) e bs bs := by
  intro ba f r h he hr
  have hlen : bs.length ≤ f.readSize := by rw [← f.rest_length, hr, List.length_append]; omega
  have hp : f.pos + bs.length ≤ f.size := by
    have := f.pos_le
    rw [Flat.readSize, Flat.size] at hlen
    rw [Flat.size]
    omega
  obtain ⟨ba', h1, h2, h3⟩ := read_rel h h0 hlen hp
  refine ⟨ba', _, by rw [h1, hr, List.take_left' rfl], h2, h3.endian.trans he, rfl, rfl, ?_⟩
  rw [Flat.rest, Flat.seek, ← List.drop_drop, ← Flat.rest, hr, List.drop_left]

theorem Encodes.bind {m m' : M Unit} {e : Endian} {bs bs' : List UInt8} (h : Encodes m e bs) (h' : Encodes m' e bs') :
    Encodes (do m; m') e (bs ++ bs') := by
  intro ba f hrel he
  obtain ⟨b1, h1, hrel₁, he₁⟩ := h ba f hrel he
  obtain ⟨b2, h2, hrel₂, he₂⟩ := h' b1 _ hrel₁ he₁
  refine ⟨b2, by rw [bind_ok h1, h2], ?_, he₂⟩
  rw [← Flat.write_write]
  exact hrel₂

theorem Decodes.map {α β : Type} {m : M α} {e : Endian} {bs : List UInt8} {a : α} (h : Decodes m e bs a) (g : α → β) :
    Decodes (do pure (g (← m))) e bs (g a) := by
  intro ba f r hrel he hr
  obtain ⟨ba', f', h1, h2⟩ := h ba f r hrel he hr
  exact ⟨ba', f', by rw [bind_ok h1, pure_apply], h2⟩

theorem Decodes.bind {α β : Type} {m : M α} {g : α → M β} {e : Endian} {bs bs' : List UInt8} {a : α} {b : β}
    (h : Decodes m e bs a) (h' : Decodes (g a) e bs' b) : Decodes (m >>= g) e (bs ++ bs') b := by
  intro ba f r hrel he hr
  obtain ⟨ba1, f1, h1, h2, h3, h4, h5, h6⟩ := h ba f (bs' ++ r) hrel he (by rw [hr, List.append_assoc])
  obtain ⟨ba2, f2, k1, k2, k3, k4, k5, k6⟩ := h' ba1 f1 r h2 h3 h6
  refine ⟨ba2, f2, by rw [bind_ok h1, k1], k2, k3, k4.trans h4, ?_, k6⟩
  rw [k5, h5, List.length_append, Nat.add_assoc]

theorem decodes_pure {α : Type} (e : Endian) (a : α) : Decodes (pure a) e [] a :=
  fun ba f _ h he hr => ⟨ba, f, rfl, h, he, rfl, rfl, hr⟩

/-- the byte string of a fixed-width value -/
def fixedBytes (host e : Endian) (k : ℕ) (v : BitVec (8 * k)) : List UInt8 :=
  image host k (if e ≠ host then byteswap k v else v)

theorem encodes_fixed (host e : Endian) (k : ℕ) (v : BitVec (8 * k)) (junk : ℕ → UInt8) :
    Encodes (writeFixed host k v junk) e (fixedBytes host e k v) := by
  intro ba f h he
  obtain ⟨ba', h1, h2⟩ := encodes_write e (fixedBytes host e k v) junk ba f h he
  refine ⟨ba', ?_, h2⟩
  rw [writeFixed, bind_ok (get_apply ba), he]
  exact h1

theorem decodes_fixed (host e : Endian) (k : ℕ) (v : BitVec (8 * k)) (hk : 1 ≤ k) :
    Decodes (readFixed host k) e (fixedBytes host e k v) v := by
  intro ba f r h he hr
  have hlen : (fixedBytes host e k v).length = k := image_length host k _
  have hread := decodes_read e (fixedBytes host e k v) (by omega)
  rw [hlen] at hread
  obtain ⟨ba', f', h1, h2, h3, h4⟩ := hread ba f r h he hr
  refine ⟨ba', f', ?_, h2, h3, h4⟩
  rw [readFixed, bind_ok h1, bind_ok (get_apply ba'), h3, fixedBytes, ofImage_image]
  by_cases heq : e = host
  · simp [heq]
  · simp [heq, byteswap_byteswap]

theorem decodes_byte (host e : Endian) (v : BitVec 8) : Decodes (readFuint8 host) e (image host 1 v) v := by
  have h := (decodes_read e (image host 1 v) (by rw [image_length])).map (ofImage host 1)
  rwa [image_length, ofImage_image] at h

theorem decodes_byte_ofNat (host e : Endian) (n : ℕ) (h : n < 256) :
    Decodes (readFuint8 host) e [UInt8.ofNat n] (BitVec.ofNat 8 n) := by
  have hn : (BitVec.ofNat 8 n).toNat = n := by rw [BitVec.toNat_ofNat, Nat.mod_eq_of_lt h]
  have hi : image host 1 (BitVec.ofNat 8 n) = [UInt8.ofNat n] := by
    cases host <;> simp only [image, toLE, hn, List.reverse_singleton]
  rw [← hi]
  exact decodes_byte host e _

/-! ## Varints -/

theorem varint_small {n : ℕ} (h : n < 128) : varint n = [UInt8.ofNat n] := by
  rw [varint, if_neg (by omega)]

theorem varint_large {n : ℕ} (h : 128 ≤ n) : varint n = UInt8.ofNat (n % 128 + 128) :: varint (n / 128) := by
  have hlow : n &&& 0x7F = n % 128 := Nat.and_two_pow_sub_one_eq_mod n 7
  have hor : n % 128 ||| 0x80 = n % 128 + 128 := by
    have := Nat.two_pow_add_eq_or_of_lt (i := 7) (b := n % 128) (by omega) 1
    norm_num only at this
    rw [Nat.or_comm, ← this]
    omega
  rw [varint, if_pos h, hlow, hor, Nat.shiftRight_eq_div_pow]

/-- `tmp[5]` and `tmp[10]` are long enough: k bytes hold 7k bits -/
theorem varint_length (k : ℕ) : ∀ n, n < 128 ^ (k + 1) → (varint n).length ≤ k + 1 := by
  induction k with
  | zero => intro n h; rw [varint_small (by simpa using h)]; simp
  | succ k ih =>
    intro n h
    by_cases hn : n < 128
    · rw [varint_small hn]; simp
    · rw [varint_large (by omega), List.length_cons]
      have := ih (n / 128) (by rw [pow_succ] at h; omega)
      omega

theorem varint_ne_nil (n : ℕ) : varint n ≠ [] := by
  rw [varint]; split_ifs <;> simp

/-- or-ing a byte in above the bits read so far adds it -/
theorem or_shift_toNat {w i x : ℕ} {r b : BitVec w} (hr : r.toNat < 2 ^ i) (hb : b.toNat = x)
    (hx : x * 2 ^ i + r.toNat < 2 ^ w) : (r ||| (b <<< i)).toNat = x * 2 ^ i + r.toNat := by
  have hlt : x * 2 ^ i < 2 ^ w := by omega
  calc (r ||| (b <<< i)).toNat = r.toNat ||| x * 2 ^ i := by
        rw [BitVec.toNat_or, BitVec.toNat_shiftLeft, hb, Nat.shiftLeft_eq, Nat.mod_eq_of_lt hlt]
    _ = x <<< i ||| r.toNat := by rw [Nat.or_comm, Nat.shiftLeft_eq]
    _ = x * 2 ^ i + r.toNat := by rw [← Nat.shiftLeft_add_eq_or_of_lt hr, Nat.shiftLeft_eq]

/-- **The varint reader stops at the right byte.** With `n` rounds left and `r` holding the low `i` bits, the encoding
of `m` is consumed whole and the result is `m * 2^i + r`. -/
theorem decodes_varint (host e : Endian) (w : ℕ) : ∀ (n i : ℕ) (r : BitVec w) (m : ℕ), r.toNat < 2 ^ i →
    m * 2 ^ i + r.toNat < 2 ^ w → (varint m).length ≤ n →
    Decodes (readVarint host w n i r) e (varint m) (BitVec.ofNat w (m * 2 ^ i + r.toNat)) := by
  intro n
  induction n with
  | zero =>
    intro i r m _ _ hlen
    exact absurd (List.eq_nil_of_length_eq_zero (Nat.le_zero.1 hlen)) (varint_ne_nil m)
  | succ n ih =>
    intro i r m hr hm hlen
    have hpow : m ≤ m * 2 ^ i := Nat.le_mul_of_pos_right _ (by positivity)
    rw [readVarint]
    by_cases hsmall : m < 128
    · -- the last byte
      have hb : (BitVec.ofNat 8 m).toNat = m := by rw [BitVec.toNat_ofNat]; omega
      have hw : ((BitVec.ofNat 8 m).setWidth w).toNat = m := by
        rw [BitVec.toNat_setWidth, hb, Nat.mod_eq_of_lt (by omega)]
      rw [varint_small hsmall, ← List.append_nil [UInt8.ofNat m]]
      refine (decodes_byte_ofNat host e m (by omega)).bind ?_
      simp only [hb, hsmall, if_true]
      have hval : r ||| ((BitVec.ofNat 8 m).setWidth w <<< i) = BitVec.ofNat w (m * 2 ^ i + r.toNat) := by
        apply BitVec.eq_of_toNat_eq
        rw [or_shift_toNat hr hw hm, BitVec.toNat_ofNat, Nat.mod_eq_of_lt hm]
      rw [hval]
      exact decodes_pure e _
    · -- a continuation byte: its seven bits go in at `i`, the rest is the encoding of m / 128
      rw [varint_large (by omega), List.length_cons] at hlen
      have hmod : m % 128 * 2 ^ i + m / 128 * 2 ^ (i + 7) = m * 2 ^ i := by
        rw [pow_add]
        conv_rhs => rw [← Nat.mod_add_div m 128]
        ring
      have hb : (BitVec.ofNat 8 (m % 128 + 128)).toNat = m % 128 + 128 := by rw [BitVec.toNat_ofNat]; omega
      have hlow : (BitVec.ofNat 8 (m % 128 + 128) &&& 0x7F#8).toNat = m % 128 := by
        rw [BitVec.toNat_and, hb, show (0x7F#8).toNat = 2 ^ 7 - 1 from rfl, Nat.and_two_pow_sub_one_eq_mod]
        omega
      have hw : ((BitVec.ofNat 8 (m % 128 + 128) &&& 0x7F#8).setWidth w).toNat = m % 128 := by
        rw [BitVec.toNat_setWidth, hlow, Nat.mod_eq_of_lt (by omega)]
      have hor := or_shift_toNat hr hw (by omega)
      have hnext := ih (i + 7) (r ||| ((BitVec.ofNat 8 (m % 128 + 128) &&& 0x7F#8).setWidth w <<< i)) (m / 128)
        (by rw [hor, pow_add]; have := Nat.mod_lt m (show 0 < 128 by omega); nlinarith) (by rw [hor]; omega) (by omega)
      rw [varint_large (by omega), ← List.singleton_append]
      refine (decodes_byte_ofNat host e (m % 128 + 128) (by omega)).bind ?_
      have hge : ¬ m % 128 + 128 < 0x80 := by omega
      simp only [hb, hge, if_false]
      rw [hor] at hnext
      have heq : m / 128 * 2 ^ (i + 7) + (m % 128 * 2 ^ i + r.toNat) = m * 2 ^ i + r.toNat := by omega
      rwa [heq] at hnext

theorem decodes_uint {host e : Endian} {w n : ℕ} (v : BitVec w) (h : (varint v.toNat).length ≤ n) :
    Decodes (readVarint host w n 0 0) e (varint v.toNat) v := by
  have hv := decodes_varint host e w n 0 0#w v.toNat (by simp) (by simpa using v.isLt) h
  simpa using hv

theorem decodes_uint32 (host e : Endian) (v : BitVec 32) : Decodes (readUint32 host) e (varint v.toNat) v :=
  decodes_uint v (varint_length 4 _ (lt_of_lt_of_le v.isLt (by norm_num)))

theorem decodes_uint64 (host e : Endian) (v : BitVec 64) : Decodes (readUint64 host) e (varint v.toNat) v :=
  decodes_uint v (varint_length 9 _ (lt_of_lt_of_le v.isLt (by norm_num)))

/-! ## Zigzag -/

/-- the last bit chooses between the halved value and its complement -/
theorem decodeZigzag32_toNat (v : BitVec 32) :
    (decodeZigzag32 v).toNat = if v.toNat % 2 = 0 then v.toNat / 2 else 2 ^ 32 - 1 - v.toNat / 2 := by
  have hand : (v &&& 1#32).toNat = v.toNat % 2 := by
    rw [BitVec.toNat_and, show (1#32).toNat = 2 ^ 1 - 1 from rfl, Nat.and_two_pow_sub_one_eq_mod]
  have hshr : (v >>> 1).toNat = v.toNat / 2 := by rw [BitVec.toNat_ushiftRight, Nat.shiftRight_eq_div_pow]
  rw [decodeZigzag32]
  split_ifs with h
  · have h0 : v &&& 1#32 = 0#32 := BitVec.eq_of_toNat_eq (by rw [hand, h]; rfl)
    rw [h0, BitVec.neg_zero, BitVec.xor_zero, hshr]
  · have h1 : v &&& 1#32 = 1#32 := BitVec.eq_of_toNat_eq (by rw [hand]; show _ = 1; omega)
    rw [h1, show -1#32 = BitVec.allOnes 32 from by decide, BitVec.xor_allOnes, BitVec.toNat_not, hshr]

theorem encodeZigzag32_toNat (v : BitVec 32) :
    (encodeZigzag32 v).toNat = if 2 ^ 31 ≤ v.toNat then 2 * (2 ^ 32 - v.toNat) - 1 else 2 * v.toNat := by
  have hlt := v.isLt
  have hsign : v.slt 0#32 = decide (2 ^ 31 ≤ v.toNat) := by
    rw [BitVec.slt_zero_eq_msb, BitVec.msb_eq_decide]
  have h1 : (1#32).toNat = 1 := rfl
  have h2 : (2#32).toNat = 2 := rfl
  simp only [encodeZigzag32, hsign, decide_eq_true_eq]
  split_ifs with h
  · rw [BitVec.toNat_sub, BitVec.toNat_mul, BitVec.toNat_neg, h1, h2]
    omega
  · rw [BitVec.toNat_mul, h2]
    omega

theorem decodeZigzag32_encodeZigzag32 (v : BitVec 32) : decodeZigzag32 (encodeZigzag32 v) = v := by
  have hlt := v.isLt
  apply BitVec.eq_of_toNat_eq
  rw [decodeZigzag32_toNat, encodeZigzag32_toNat]
  split_ifs <;> omega

theorem decodes_int32 (host e : Endian) (v : BitVec 32) :
    Decodes (readInt32 host) e (varint (encodeZigzag32 v).toNat) v := by
  have h := (decodes_uint32 host e (encodeZigzag32 v)).map decodeZigzag32
  rwa [decodeZigzag32_encodeZigzag32] at h

/-! ## Streams of values -/

/-- the types whose codecs the stream is made of -/
inductive Ty where
  | fint8 | fuint8 | fint16 | fuint16 | fint32 | fuint32 | fint64 | fuint64 | int32 | uint32 | uint64 | float | double
deriving DecidableEq, Repr

namespace Ty

def width : Ty → ℕ
  | fint8 | fuint8 => 8
  | fint16 | fuint16 => 16
  | fint32 | fuint32 | int32 | uint32 | float => 32
  | fint64 | fuint64 | uint64 | double => 64

def write (host : Endian) (junk : ℕ → UInt8) : (t : Ty) → BitVec t.width → M Unit
  | fint8, v => writeFint8 host v junk
  | fuint8, v => writeFuint8 host v junk
  | fint16, v => writeFint16 host v junk
  | fuint16, v => writeFuint16 host v junk
  | fint32, v => writeFint32 host v junk
  | fuint32, v => writeFuint32 host v junk
  | fint64, v => writeFint64 host v junk
  | fuint64, v => writeFuint64 host v junk
  | int32, v => writeInt32 v junk
  | uint32, v => writeUint32 v junk
  | uint64, v => writeUint64 v junk
  | float, v => writeFloat host v junk
  | double, v => writeDouble host v junk

/-- the matching read function -/
def read (host : Endian) : (t : Ty) → M (BitVec t.width)
  | fint8 => readFint8 host
  | fuint8 => readFuint8 host
  | fint16 => readFint16 host
  | fuint16 => readFuint16 host
  | fint32 => readFint32 host
  | fuint32 => readFuint32 host
  | fint64 => readFint64 host
  | fuint64 => readFuint64 host
  | int32 => readInt32 host
  | uint32 => readUint32 host
  | uint64 => readUint64 host
  | float => readFloat host
  | double => readDouble host

/-- the byte string of a value -/
def bytes (host e : Endian) : (t : Ty) → BitVec t.width → List UInt8
  | fint8, v | fuint8, v => image host 1 v
  | fint16, v | fuint16, v => fixedBytes host e 2 v
  | fint32, v | fuint32, v | float, v => fixedBytes host e 4 v
  | fint64, v | fuint64, v | double, v => fixedBytes host e 8 v
  | int32, v => varint (encodeZigzag32 v).toNat
  | uint32, v | uint64, v => varint v.toNat

theorem encodes (host e : Endian) (junk : ℕ → UInt8) (t : Ty) (v : BitVec t.width) :
    Encodes (t.write host junk v) e (t.bytes host e v) := by
  cases t with
  | fint8 | fuint8 | int32 | uint32 | uint64 => exact encodes_write e _ junk
  | fint16 | fuint16 => exact encodes_fixed host e 2 v junk
  | fint32 | fuint32 | float => exact encodes_fixed host e 4 v junk
  | fint64 | fuint64 | double => exact encodes_fixed host e 8 v junk

theorem decodes (host e : Endian) (t : Ty) (v : BitVec t.width) : Decodes (t.read host) e (t.bytes host e v) v := by
  cases t with
  | fint8 | fuint8 => exact decodes_byte host e v
  | fint16 | fuint16 => exact decodes_fixed host e 2 v (by omega)
  | fint32 | fuint32 | float => exact decodes_fixed host e 4 v (by omega)
  | fint64 | fuint64 | double => exact decodes_fixed host e 8 v (by omega)
  | uint32 => exact decodes_uint32 host e v
  | uint64 => exact decodes_uint64 host e v
  | int32 => exact decodes_int32 host e v

end Ty

/-- a value of the stream, the byte order it travels in, and what fresh memory holds when it is written -/
structure Item where
  ty : Ty
  val : BitVec ty.width
  little : Bool
  junk : ℕ → UInt8

/-- what a reader has to know about a value -/
def Item.shape (it : Item) : Ty × Bool := (it.ty, it.little)

/-- a value with its type -/
def Item.value (it : Item) : (t : Ty) × BitVec t.width := ⟨it.ty, it.val⟩

/-- `m_endian` after `setIsLittleEndian(val)` -/
def order (little : Bool) : Endian := if little then .little else .big

/-- set the byte order and write each value; the positions after each write -/
def writeAll (host : Endian) : List Item → M (List ℕ)
  | [] => pure []
  | it :: its => do
    setIsLittleEndian it.little
    it.ty.write host it.junk it.val
    let p := (← get).position
    let ps ← writeAll host its
    pure (p :: ps)

/-- set the byte order and read each value; the values with the positions after each read -/
def readAll (host : Endian) : List (Ty × Bool) → M (List (((t : Ty) × BitVec t.width) × ℕ))
  | [] => pure []
  | sh :: shs => do
    setIsLittleEndian sh.2
    let v ← sh.1.read host
    let p := (← get).position
    let vs ← readAll host shs
    pure ((⟨sh.1, v⟩, p) :: vs)

/-- all byte strings of a stream, one after another -/
def streamBytes (host : Endian) (its : List Item) : List UInt8 :=
  its.flatMap fun it => it.ty.bytes host (order it.little) it.val

/-- where the values of a stream end, starting from `p` -/
def ends (host : Endian) : ℕ → List Item → List ℕ
  | _, [] => []
  | p, it :: its =>
    let q := p + (it.ty.bytes host (order it.little) it.val).length
    q :: ends host q its

theorem ends_length (host : Endian) (p : ℕ) (its : List Item) : (ends host p its).length = its.length := by
  induction its generalizing p with
  | nil => rfl
  | cons it its ih => rw [ends, List.length_cons, List.length_cons, ih]

theorem setIsLittleEndian_rel {ba : ByteArray} {f : Flat} (h : Rel ba f) (b : Bool) :
    ∃ ba', setIsLittleEndian b ba = (.ok (), ba') ∧ Rel ba' f ∧ ba'.endian = order b := by
  refine ⟨_, rfl, ⟨⟨h.inv.base_pos, h.inv.sized, h.inv.root, h.inv.cap, h.inv.pos_le, h.inv.size_le, h.inv.cur_eq⟩,
    h.contents, h.pos⟩, ?_⟩
  cases b <;> rfl

theorem Flat.write_end {f : Flat} (h : f.pos = f.size) (bs : List UInt8) :
    (f.write bs).contents = f.contents ++ bs ∧ (f.write bs).pos = (f.write bs).size := by
  have hc : (f.write bs).contents = f.contents ++ bs := by
    change splice f.contents f.pos bs = _
    have hpos : f.pos = f.contents.length := h
    rw [splice, hpos, List.take_length, List.drop_of_length_le (Nat.le_add_right _ _), List.append_nil]
  refine ⟨hc, ?_⟩
  rw [Flat.size, hc, List.length_append, ← Flat.size, ← h]
  rfl

/-- writing a stream at the end of the contents appends its bytes -/
theorem writeAll_spec (host : Endian) (its : List Item) {ba : ByteArray} {f : Flat} (h : Rel ba f)
    (hend : f.pos = f.size) :
    ∃ ba' f', writeAll host its ba = (.ok (ends host f.pos its), ba') ∧ Rel ba' f' ∧
      f'.contents = f.contents ++ streamBytes host its := by
  induction its generalizing ba f with
  | nil => exact ⟨ba, f, rfl, h, by simp [streamBytes]⟩
  | cons it its ih =>
    obtain ⟨ba1, h1, h2, h3⟩ := setIsLittleEndian_rel h it.little
    obtain ⟨ba2, k1, k2, -⟩ := it.ty.encodes host (order it.little) it.junk it.val ba1 f h2 h3
    obtain ⟨hcont, hpos⟩ := Flat.write_end hend (it.ty.bytes host (order it.little) it.val)
    obtain ⟨ba3, f3, m1, m2, m3⟩ := ih k2 hpos
    refine ⟨ba3, f3, ?_, m2, ?_⟩
    · rw [writeAll, bind_ok h1, bind_ok k1, bind_ok (get_apply ba2), bind_ok m1, k2.pos]
      rfl
    · rw [m3, hcont, List.append_assoc]
      rfl

/-- reading a stream from its first byte returns its values and stops after its last byte -/
theorem readAll_spec (host : Endian) (its : List Item) {ba : ByteArray} {f : Flat} (r : List UInt8) (h : Rel ba f)
    (hrest : f.rest = streamBytes host its ++ r) :
    ∃ ba' f', readAll host (its.map Item.shape) ba = (.ok ((its.map Item.value).zip (ends host f.pos its)), ba') ∧
      Rel ba' f' ∧ f'.rest = r := by
  induction its generalizing ba f with
  | nil => exact ⟨ba, f, rfl, h, by simpa [streamBytes] using hrest⟩
  | cons it its ih =>
    obtain ⟨ba1, h1, h2, h3⟩ := setIsLittleEndian_rel h it.little
    obtain ⟨ba2, f2, k1, k2, -, -, k5, k6⟩ := it.ty.decodes host (order it.little) it.val ba1 f
      (streamBytes host its ++ r) h2 h3 (by rw [hrest, ← List.append_assoc]; rfl)
    obtain ⟨ba3, f3, m1, m2, m3⟩ := ih k2 k6
    refine ⟨ba3, f3, ?_, m2, m3⟩
    rw [List.map_cons, readAll, Item.shape, bind_ok h1, bind_ok k1, bind_ok (get_apply ba2), bind_ok m1, k2.pos,
      k5]
    rfl

/-- **Typed streams round-trip.** On a fresh array of any block size, write any list of values of the fixed-width,
varint, zigzag and float types, each under its own byte order; seek to 0 and read the same types under the same byte
orders. Every value comes back, the cursor after each read is where it was after the matching write (both start at 0,
so each read consumes the bytes of its write), and nothing readable is left. -/
theorem typed_roundtrip (host : Endian) (base : ℕ) (hb : 1 ≤ base) (junk : ℕ → UInt8) (its : List Item) :
    ∃ ps written rewound final, writeAll host its (new base junk) = (.ok ps, written) ∧ ps.length = its.length ∧
      setPosition 0 written = (.ok (), rewound) ∧
      readAll host (its.map Item.shape) rewound = (.ok ((its.map Item.value).zip ps), final) ∧
      final.getReadSize = 0 := by
  obtain ⟨ba1, f1, h1, h2, h3⟩ := writeAll_spec host its (rel_new base junk hb) rfl
  obtain ⟨ba2, k1, k2, -⟩ := setPosition_rel h2 (Nat.zero_le f1.size)
  have hrest : (f1.seek 0 (Nat.zero_le _)).rest = streamBytes host its ++ [] := by
    rw [Flat.rest, Flat.seek, List.drop_zero, h3, List.append_nil]; rfl
  obtain ⟨ba3, f3, m1, m2, m3⟩ := readAll_spec host its [] k2 hrest
  refine ⟨_, ba1, ba2, ba3, h1, ends_length host _ its, k1, m1, ?_⟩
  rw [m2.readSize, ← f3.rest_length, m3, List.length_nil]

/-- a varint, a zigzag value and a big-endian word over one-byte nodes: each value crosses nodes -/
theorem typed_roundtrip_three :
    let its : List Item := [⟨.uint32, 300, true, fun _ => 0xcd⟩, ⟨.int32, -2, true, fun _ => 0xcd⟩,
      ⟨.fuint16, 0x1234, false, fun _ => 0xcd⟩]
    ∃ ps written rewound final, writeAll .little its (new 1 fun _ => 0xcd) = (.ok ps, written) ∧
      ps.length = its.length ∧ setPosition 0 written = (.ok (), rewound) ∧
      readAll .little (its.map Item.shape) rewound = (.ok ((its.map Item.value).zip ps), final) ∧
      final.getReadSize = 0 :=
  typed_roundtrip .little 1 (by decide) (fun _ => 0xcd) _

end Sylar.ByteArray
