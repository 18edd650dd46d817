/-
Strings with a length in front of them (`writeStringF16`, `writeStringF32`, `writeStringF64`, `writeStringVint` and
their readers).

A string is written as its length and then its bytes, and read back as a length and then that many bytes. Two things
go wrong. The payload of an empty string is a `read` of no bytes, which still looks at `m_cur->size`; at the end of
the capacity there is no such node. And `writeStringF16` narrows the length to 16 bits but writes all the bytes.

- `string_roundtrip_iff`: a string comes back if and only if it is not empty or its length does not end the last
  block.
- `framing_iff`: a list of strings comes back from `writeStringF16` if and only if each of them has a length of 16
  bits.
-/
import Mathlib.Tactic
import Sylar.Core.Splice
import Sylar.ByteArray.Model
import Sylar.ByteArray.Invariant
import Sylar.ByteArray.Refine
import Sylar.ByteArray.Codec
import Sylar.ByteArray.Scatter

namespace Sylar.ByteArray

open Sylar.Core

/-! ## The string functions -/

def writeStringF16 (host : Endian) (value : List UInt8) (junk : ℕ → UInt8) : M Unit := do
  writeFuint16 host (BitVec.ofNat 16 value.length) junk
  write value junk

def writeStringF32 (host : Endian) (value : List UInt8) (junk : ℕ → UInt8) : M Unit := do
  writeFuint32 host (BitVec.ofNat 32 value.length) junk
  write value junk

def writeStringF64 (host : Endian) (value : List UInt8) (junk : ℕ → UInt8) : M Unit := do
  writeFuint64 host (BitVec.ofNat 64 value.length) junk
  write value junk

def writeStringVint (value : List UInt8) (junk : ℕ → UInt8) : M Unit := do
  writeUint64 (BitVec.ofNat 64 value.length) junk
  write value junk

/-- `std::string::max_size()` of libstdc++ -/
def maxSize : ℕ := 2 ^ 62 - 1

/-- `buff.resize(len)`; memory for a string that can exist is taken to be there, as it is for the blocks -/
def resize (len : ℕ) : M Unit := fun ba => (if len > maxSize then .error .lengthError else .ok (), ba)

/-- `buff.resize(len); read(&buff[0], len); return buff;` -/
def readBuff (len : ℕ) : M (List UInt8) := do
  resize len
  read len

def readStringF16 (host : Endian) : M (List UInt8) := do readBuff (← readFuint16 host).toNat
def readStringF32 (host : Endian) : M (List UInt8) := do readBuff (← readFuint32 host).toNat
def readStringF64 (host : Endian) : M (List UInt8) := do readBuff (← readFuint64 host).toNat
def readStringVint (host : Endian) : M (List UInt8) := do readBuff (← readUint64 host).toNat

/-! ## The four formats -/

inductive Format where
  | f16 | f32 | f64 | vint
deriving DecidableEq, Repr

namespace Format

def write (host : Endian) (junk : ℕ → UInt8) : Format → List UInt8 → M Unit
  | f16, s => writeStringF16 host s junk
  | f32, s => writeStringF32 host s junk
  | f64, s => writeStringF64 host s junk
  | vint, s => writeStringVint s junk

def read (host : Endian) : Format → M (List UInt8)
  | f16 => readStringF16 host
  | f32 => readStringF32 host
  | f64 => readStringF64 host
  | vint => readStringVint host

/-- the longest strings that are meant to be written -/
def limit : Format → ℕ
  | f16 => 65535
  | f32 | f64 | vint => 2 ^ 32 - 1

/-- the length as a number of the format -/
def bits : Format → ℕ
  | f16 => 16
  | f32 => 32
  | f64 | vint => 64

/-- the bytes of the length `n` -/
def lead (host e : Endian) : Format → ℕ → List UInt8
  | f16, n => fixedBytes host e 2 (BitVec.ofNat 16 n)
  | f32, n => fixedBytes host e 4 (BitVec.ofNat 32 n)
  | f64, n => fixedBytes host e 8 (BitVec.ofNat 64 n)
  | vint, n => varint (BitVec.ofNat 64 n).toNat

/-- the length of an empty string takes this many bytes -/
def leadSize : Format → ℕ
  | f16 => 2
  | f32 => 4
  | f64 => 8
  | vint => 1

/-- the first part of `read` -/
def readLen (host : Endian) : Format → M ℕ
  | f16 => do pure (← readFuint16 host).toNat
  | f32 => do pure (← readFuint32 host).toNat
  | f64 => do pure (← readFuint64 host).toNat
  | vint => do pure (← readUint64 host).toNat

theorem lead_zero_length (host e : Endian) (fmt : Format) : (fmt.lead host e 0).length = fmt.leadSize := by
  cases fmt with
  | f16 | f32 | f64 => exact image_length host _ _
  | vint => rw [lead, BitVec.toNat_ofNat, Nat.zero_mod, varint_small (by omega)]; rfl

theorem limit_lt (fmt : Format) : fmt.limit < 2 ^ fmt.bits := by
  cases fmt <;> decide

theorem limit_le_maxSize (fmt : Format) : fmt.limit ≤ maxSize := by
  cases fmt <;> decide

theorem encodes (host e : Endian) (junk : ℕ → UInt8) (fmt : Format) (s : List UInt8) :
    Encodes (fmt.write host junk s) e (fmt.lead host e s.length ++ s) := by
  cases fmt with
  | f16 => exact (encodes_fixed host e 2 _ junk).bind (encodes_write e s junk)
  | f32 => exact (encodes_fixed host e 4 _ junk).bind (encodes_write e s junk)
  | f64 => exact (encodes_fixed host e 8 _ junk).bind (encodes_write e s junk)
  | vint => exact (encodes_write e _ junk).bind (encodes_write e s junk)

theorem decodes_len (host e : Endian) (fmt : Format) (n : ℕ) :
    Decodes (fmt.readLen host) e (fmt.lead host e n) (n % 2 ^ fmt.bits) := by
  cases fmt with
  | f16 =>
    have h := (decodes_fixed host e 2 (BitVec.ofNat 16 n) (by omega)).map BitVec.toNat
    rwa [BitVec.toNat_ofNat] at h
  | f32 =>
    have h := (decodes_fixed host e 4 (BitVec.ofNat 32 n) (by omega)).map BitVec.toNat
    rwa [BitVec.toNat_ofNat] at h
  | f64 =>
    have h := (decodes_fixed host e 8 (BitVec.ofNat 64 n) (by omega)).map BitVec.toNat
    rwa [BitVec.toNat_ofNat] at h
  | vint =>
    have h := (decodes_uint64 host e (BitVec.ofNat 64 n)).map BitVec.toNat
    nth_rewrite 2 [BitVec.toNat_ofNat] at h
    exact h

end Format

/-- a value changed on its way to what reads it -/
theorem map_bind {α β γ : Type} (m : M α) (g : α → β) (k : β → M γ) :
    ((do pure (g (← m))) >>= k : M γ) = (m >>= fun a => k (g a)) := by
  funext ba
  rcases h : m ba with ⟨e | a, b⟩
  · have hmap : (m >>= fun a => pure (g a) : M β) ba = (.error e, b) := bind_error h
    exact (bind_error hmap).trans (bind_error h).symm
  · have hmap : (m >>= fun a => pure (g a) : M β) ba = (.ok (g a), b) := bind_ok h
    have hcomp : (m >>= fun a => k (g a)) ba = k (g a) b := bind_ok h
    exact (bind_ok hmap).trans hcomp.symm

/-- the readers are a length and a payload -/
theorem Format.read_eq (host : Endian) (fmt : Format) : fmt.read host = (fmt.readLen host >>= readBuff) := by
  cases fmt with
  | f16 | f32 | f64 | vint => exact (map_bind _ _ _).symm

theorem resize_ok {len : ℕ} (h : len ≤ maxSize) (ba : ByteArray) : resize len ba = (.ok (), ba) := by
  rw [resize, if_neg (by omega)]

theorem decodes_resize (e : Endian) {len : ℕ} (h : len ≤ maxSize) : Decodes (resize len) e [] () :=
  fun ba f _ hrel he hr => ⟨ba, f, resize_ok h ba, hrel, he, rfl, rfl, hr⟩

theorem decodes_buff (e : Endian) {s : List UInt8} (h0 : 1 ≤ s.length) (hmax : s.length ≤ maxSize) :
    Decodes (readBuff s.length) e s s :=
  (decodes_resize e hmax).bind (decodes_read e s h0)

/-- a string that is not empty is read from its bytes -/
theorem Format.decodes (host e : Endian) (fmt : Format) {s : List UInt8} (h0 : 1 ≤ s.length)
    (hlim : s.length ≤ fmt.limit) :
    Decodes (fmt.read host) e (fmt.lead host e s.length ++ s) s := by
  have hmod : s.length % 2 ^ fmt.bits = s.length := Nat.mod_eq_of_lt (lt_of_le_of_lt hlim fmt.limit_lt)
  have hlen := fmt.decodes_len host e s.length
  rw [hmod] at hlen
  rw [fmt.read_eq host]
  exact hlen.bind (decodes_buff e h0 (hlim.trans fmt.limit_le_maxSize))

/-! ## Readers move the cursor only -/

def MovesOnly {α : Type} (m : M α) : Prop := ∀ ba, ∃ p c, (m ba).2 = { ba with position := p, cur := c }

theorem movesOnly_pure {α : Type} (a : α) : MovesOnly (pure a) := fun ba => ⟨ba.position, ba.cur, rfl⟩

theorem movesOnly_get : MovesOnly get := fun ba => ⟨ba.position, ba.cur, rfl⟩

theorem MovesOnly.bind {α β : Type} {m : M α} {g : α → M β} (h : MovesOnly m) (h' : ∀ a, MovesOnly (g a)) :
    MovesOnly (m >>= g) := by
  intro ba
  obtain ⟨p, c, hm⟩ := h ba
  rcases hr : m ba with ⟨e | a, b⟩
  · rw [bind_error hr]
    rw [hr] at hm
    exact ⟨p, c, hm⟩
  · rw [bind_ok hr]
    rw [hr] at hm
    obtain ⟨p', c', hg⟩ := h' a b
    exact ⟨p', c', by rw [hg, show b = _ from hm]⟩

theorem movesOnly_read (n : ℕ) : MovesOnly (read n) := by
  intro ba
  rw [read]
  split_ifs
  · exact ⟨ba.position, ba.cur, rfl⟩
  · exact ⟨ba.position, ba.cur, rfl⟩
  · exact ⟨ba.position, ba.cur, rfl⟩
  · split
    · exact ⟨ba.position, ba.cur, rfl⟩
    · exact ⟨_, _, rfl⟩

theorem movesOnly_fixed (host : Endian) (k : ℕ) : MovesOnly (readFixed host k) := by
  refine (movesOnly_read k).bind fun bs => movesOnly_get.bind fun ba => ?_
  split_ifs
  · exact movesOnly_pure _
  · exact movesOnly_pure _

theorem movesOnly_varint (host : Endian) (w : ℕ) : ∀ (n i : ℕ) (r : BitVec w), MovesOnly (readVarint host w n i r)
  | 0, _, r => movesOnly_pure r
  | n + 1, i, r => by
    rw [readVarint]
    refine ((movesOnly_read 1).bind fun bs => movesOnly_pure _).bind fun b => ?_
    split_ifs
    · exact movesOnly_pure _
    · exact movesOnly_varint host w n (i + 7) _

theorem Format.movesOnly_len (host : Endian) (fmt : Format) : MovesOnly (fmt.readLen host) := by
  cases fmt with
  | f16 => exact (movesOnly_fixed host 2).bind fun _ => movesOnly_pure _
  | f32 => exact (movesOnly_fixed host 4).bind fun _ => movesOnly_pure _
  | f64 => exact (movesOnly_fixed host 8).bind fun _ => movesOnly_pure _
  | vint => exact (movesOnly_varint host 64 10 0 0).bind fun _ => movesOnly_pure _

/-! ## Written and read back -/

/-- the string is written, read back from the old position, and the cursor stands behind the bytes written -/
def StringRoundTrips (host : Endian) (junk : ℕ → UInt8) (fmt : Format) (ba : ByteArray) (s : List UInt8) : Prop :=
  ∃ b1 b2 b3, fmt.write host junk s ba = (.ok (), b1) ∧ setPosition ba.position b1 = (.ok (), b2) ∧
    fmt.read host b2 = (.ok s, b3) ∧ b3.position = b1.position

theorem roundTrips_nonempty (host : Endian) (junk : ℕ → UInt8) (fmt : Format) {ba : ByteArray} (h : Inv ba)
    {s : List UInt8}
    (h0 : s ≠ []) (hlim : s.length ≤ fmt.limit) : StringRoundTrips host junk fmt ba s := by
  obtain ⟨f, hrel⟩ := h.exists_flat
  obtain ⟨b1, h1, hrel₁, he₁⟩ := fmt.encodes host ba.endian junk s ba f hrel rfl
  obtain ⟨b2, h2, hrel₂, hframe⟩ := setPosition_rel hrel₁ (f.pos_le_write _)
  have hdec := fmt.decodes host ba.endian (List.length_pos_iff.mpr h0) hlim
  obtain ⟨b3, f3, h3, hrel₃, -, -, hpos, -⟩ := hdec b2 _ _ hrel₂ (hframe.endian.trans he₁) (f.rest_rewound _)
  rw [← hrel.pos] at h2
  exact ⟨b1, b2, b3, h1, h2, h3, by rw [hrel₃.pos, hpos, hrel₁.pos]; rfl⟩

theorem bind_write_nil (m : M Unit) (junk : ℕ → UInt8) : (do m; write [] junk) = m := by
  funext ba
  rcases h : m ba with ⟨e | a, b⟩
  · exact bind_error h
  · exact bind_ok h

theorem Format.write_empty (host : Endian) (junk : ℕ → UInt8) (fmt : Format) (ba : ByteArray) :
    fmt.write host junk [] ba = ByteArray.write (fmt.lead host ba.endian 0) junk ba := by
  cases fmt with
  | f16 => exact congrFun (bind_write_nil (writeFuint16 host _ junk) junk) ba
  | f32 => exact congrFun (bind_write_nil (writeFuint32 host _ junk) junk) ba
  | f64 => exact congrFun (bind_write_nil (writeFuint64 host _ junk) junk) ba
  | vint => exact congrFun (bind_write_nil (writeUint64 _ junk) junk) ba

/-- what is left of reading an empty string back: its payload is a `read(0)` behind the length -/
theorem read_empty (host : Endian) (junk : ℕ → UInt8) (fmt : Format) {ba : ByteArray} (h : Inv ba) :
    ∃ b1 b2 b3, fmt.write host junk [] ba = (.ok (), b1) ∧ setPosition ba.position b1 = (.ok (), b2) ∧
      fmt.read host b2 = (if b1.position = b1.capacity then .error .nullNode else .ok [], b3) ∧
      b3.position = b1.position := by
  obtain ⟨f, hrel⟩ := h.exists_flat
  obtain ⟨b1, h1, hrel₁, he₁⟩ := encodes_write ba.endian (fmt.lead host ba.endian 0) junk ba f hrel rfl
  obtain ⟨b2, h2, hrel₂, hframe⟩ := setPosition_rel hrel₁ (f.pos_le_write _)
  obtain ⟨b3, f3, h3, hrel₃, -, -, hpos, -⟩ := fmt.decodes_len host ba.endian 0 b2 _ _ hrel₂ (hframe.endian.trans he₁)
    (f.rest_rewound _)
  have hpos₃ : b3.position = b1.position := by rw [hrel₃.pos, hpos, hrel₁.pos]; rfl
  have hcap : b3.capacity = b1.capacity := by
    obtain ⟨p, c, hmoves⟩ := fmt.movesOnly_len host b2
    have hseek : b2.capacity = b1.capacity := by
      obtain ⟨b2', k1, kinv, -, -, -, kmem⟩ := setPosition_spec hrel₁.inv
        (show f.pos ≤ b1.capacity from (hrel₁.size ▸ f.pos_le_write _ : f.pos ≤ b1.size).trans hrel₁.inv.size_le)
      obtain rfl : b2' = b2 := (Prod.mk.inj (k1.symm.trans h2)).2
      rw [← kinv.mem_length, kmem, hrel₁.inv.mem_length]
    rw [h3] at hmoves
    rw [show b3 = _ from hmoves]
    exact hseek
  have hread : fmt.read host b2 = (if b1.position = b1.capacity then .error .nullNode else .ok [], b3) := by
    rw [fmt.read_eq host, bind_ok h3, Nat.zero_mod, readBuff, bind_ok (resize_ok (Nat.zero_le _) b3),
      read_zero hrel₃.inv, hpos₃, hcap]
    split_ifs
    · rfl
    · rfl
  rw [← hrel.pos] at h2
  exact ⟨b1, b2, b3, (fmt.write_empty host junk ba).trans h1, h2, hread, hpos₃⟩

theorem roundTrips_empty_iff (host : Endian) (junk : ℕ → UInt8) (fmt : Format) {ba : ByteArray} (h : Inv ba) :
    StringRoundTrips host junk fmt ba [] ↔
      ba.position + fmt.leadSize < ba.capacity ∨ ¬ba.baseSize ∣ ba.position + fmt.leadSize := by
  obtain ⟨b1, b2, b3, h1, h2, h3, h4⟩ := read_empty host junk fmt h
  have hfull := write_full_iff h ((fmt.write_empty host junk ba).symm.trans h1)
  rw [fmt.lead_zero_length] at hfull
  have hok : StringRoundTrips host junk fmt ba [] ↔ b1.position ≠ b1.capacity := by
    constructor
    · rintro ⟨c1, c2, c3, k1, k2, k3, -⟩ hend
      obtain rfl : b1 = c1 := (Prod.mk.inj (h1.symm.trans k1)).2
      obtain rfl : b2 = c2 := (Prod.mk.inj (h2.symm.trans k2)).2
      rw [h3, if_pos hend] at k3
      cases k3
    · intro hne
      rw [if_neg hne] at h3
      exact ⟨b1, b2, b3, h1, h2, h3, h4⟩
  rw [hok, Ne, hfull, not_and_or, not_le]

/-- **Strings round-trip.** In every reachable state, a string of any of the four formats is written and read back,
with the cursor behind the bytes written, if and only if it is not empty, or the bytes of its length end before the
end of the capacity or inside a block. -/
theorem string_roundtrip_iff (host : Endian) (junk : ℕ → UInt8) (fmt : Format) (ba : ByteArray) (h : Reachable ba)
    (s : List UInt8) (hlim : s.length ≤ fmt.limit) :
    StringRoundTrips host junk fmt ba s ↔
      s ≠ [] ∨ ba.position + fmt.leadSize < ba.capacity ∨ ¬ba.baseSize ∣ ba.position + fmt.leadSize := by
  by_cases h0 : s = []
  · subst h0
    rw [roundTrips_empty_iff host junk fmt h.inv]
    simp
  · exact iff_of_true (roundTrips_nonempty host junk fmt h.inv h0 hlim) (.inl h0)

/-- a string of three bytes over blocks of two -/
theorem string_roundtrip_iff_three : StringRoundTrips .little (fun _ => 0) .vint (new 2 fun _ => 0) [1, 2, 3] :=
  (string_roundtrip_iff .little (fun _ => 0) .vint (new 2 fun _ => 0) (.new 2 _ (by decide)) [1, 2, 3] (by decide)).mpr
    (.inl (by decide))

/-- the length of an empty string fills the one block of four bytes: no node for its payload -/
theorem string_empty_faults :
    Reachable (new 4 fun _ => 0) ∧ ([] : List UInt8).length ≤ Format.f32.limit ∧
      ¬StringRoundTrips .little (fun _ => 0) .f32 (new 4 fun _ => 0) [] := by
  refine ⟨.new 4 _ (by decide), by decide, ?_⟩
  rw [roundTrips_empty_iff _ _ _ (inv_new 4 (fun _ => 0) (by decide))]
  decide

/-! ## Streams of strings -/

/-- one call of `writeStringF16` for each string: the strings whose calls returned, and the array after them -/
def storeAll (host : Endian) (junk : ℕ → UInt8) : List (List UInt8) → ByteArray → List (List UInt8) × ByteArray
  | [], ba => ([], ba)
  | s :: ss, ba =>
    match writeStringF16 host s junk ba with
    | (.ok (), b) => (s :: (storeAll host junk ss b).1, (storeAll host junk ss b).2)
    | (.error _, b) => storeAll host junk ss b

/-- a call that throws leaves the array as it was -/
def ThrowsClean (host : Endian) (junk : ℕ → UInt8) : List (List UInt8) → ByteArray → Prop
  | [], _ => True
  | s :: ss, ba =>
    (∀ e b, writeStringF16 host s junk ba = (.error e, b) → b = ba) ∧
      ThrowsClean host junk ss (writeStringF16 host s junk ba).2

/-- `n` calls of `readStringF16` -/
def readStrings (host : Endian) : ℕ → M (List (List UInt8))
  | 0 => pure []
  | n + 1 => do
    let s ← readStringF16 host
    let ss ← readStrings host n
    pure (s :: ss)

/-- on a fresh array each call throws and changes nothing or stores its string, and what was stored is read back in
order -/
def Framed (host : Endian) (base : ℕ) (junk : ℕ → UInt8) (ss : List (List UInt8)) : Prop :=
  ThrowsClean host junk ss (new base junk) ∧
    ∃ b2 b3, setPosition 0 (storeAll host junk ss (new base junk)).2 = (.ok (), b2) ∧
      readStrings host (storeAll host junk ss (new base junk)).1.length b2 =
        (.ok (storeAll host junk ss (new base junk)).1, b3)

/-- the bytes of a list of strings: lengths of 16 bits, payloads in full -/
def frames (host e : Endian) (ss : List (List UInt8)) : List UInt8 :=
  ss.flatMap fun s => Format.f16.lead host e s.length ++ s

/-- no call throws, and the strings are appended one after another -/
theorem storeAll_spec (host : Endian) (junk : ℕ → UInt8) (ss : List (List UInt8)) {ba : ByteArray} {f : Flat}
    (h : Rel ba f) (hend : f.pos = f.size) :
    ThrowsClean host junk ss ba ∧ (storeAll host junk ss ba).1 = ss ∧
      (storeAll host junk ss ba).2.endian = ba.endian ∧
      ∃ f', Rel (storeAll host junk ss ba).2 f' ∧ f'.contents = f.contents ++ frames host ba.endian ss := by
  induction ss generalizing ba f with
  | nil => exact ⟨trivial, rfl, rfl, f, h, by simp [frames]⟩
  | cons s ss ih =>
    obtain ⟨b, h1, h2, he⟩ := Format.f16.encodes host ba.endian junk s ba f h rfl
    have hcall : writeStringF16 host s junk ba = (.ok (), b) := h1
    obtain ⟨hcont, hpos⟩ := Flat.write_end hend (Format.f16.lead host ba.endian s.length ++ s)
    obtain ⟨hclean, hstored, hend', f', hrel, hcont'⟩ := ih h2 hpos
    simp only [ThrowsClean, storeAll, hcall]
    refine ⟨⟨?_, hclean⟩, by rw [hstored], hend'.trans he, f', hrel, ?_⟩
    · intro e b' herr
      cases herr
    · rw [hcont', hcont, he, List.append_assoc]
      rfl

theorem readStrings_spec (host e : Endian) (ss : List (List UInt8)) (hlim : ∀ s ∈ ss, 1 ≤ s.length ∧ s.length ≤ 65535) :
    Decodes (readStrings host ss.length) e (frames host e ss) ss := by
  induction ss with
  | nil => exact decodes_pure e []
  | cons s ss ih =>
    obtain ⟨h0, hle⟩ := hlim s List.mem_cons_self
    have hrest := ih fun t ht => hlim t (List.mem_cons_of_mem s ht)
    exact (Format.f16.decodes host e h0 hle).bind (hrest.map (s :: ·))

theorem read_length {ba b : ByteArray} {n : ℕ} {bs : List UInt8} (h : Inv ba) (hread : read n ba = (.ok bs, b)) :
    bs.length = n := by
  rcases Nat.eq_zero_or_pos n with rfl | hn
  · rw [read_zero h] at hread
    split_ifs at hread
    · cases hread
    · obtain ⟨h1, -⟩ := Prod.mk.inj hread
      rw [← Except.ok.inj h1, List.length_nil]
  · by_cases hle : n ≤ ba.getReadSize
    · obtain ⟨b', h1, -⟩ := read_spec h hn hle
      rw [h1] at hread
      have hlen : (ba.contents.drop ba.position).length = ba.getReadSize := by
        rw [List.length_drop, h.contents_length, getReadSize]
      rw [← Except.ok.inj (Prod.mk.inj hread).1, List.length_take, hlen, min_eq_left hle]
    · rw [read_throws (by omega)] at hread
      cases hread

/-- what is read where a string of any length was written has its length modulo 2^16 -/
theorem readStringF16_length {host : Endian} {ba b : ByteArray} {f : Flat} {s t r : List UInt8} (h : Rel ba f)
    (hrest : f.rest = Format.f16.lead host ba.endian s.length ++ r) (hread : readStringF16 host ba = (.ok t, b)) :
    t.length = s.length % 65536 := by
  obtain ⟨b1, f1, h1, hrel, -⟩ := Format.f16.decodes_len host ba.endian s.length ba f r h rfl hrest
  have hbuff : readBuff (s.length % 65536) b1 = (.ok t, b) := by
    have hread' : Format.f16.read host ba = (.ok t, b) := hread
    rw [Format.f16.read_eq host, bind_ok h1] at hread'
    exact hread'
  have hmax : s.length % 65536 ≤ maxSize := (Nat.mod_lt _ (by decide)).le.trans (by decide)
  rw [readBuff, bind_ok (resize_ok hmax b1)] at hbuff
  exact read_length hrel.inv hbuff

/-- peeling the first call off a run of readers that returned -/
theorem readStrings_cons {host : Endian} {n : ℕ} {ba b : ByteArray} {s : List UInt8} {ss : List (List UInt8)}
    (h : readStrings host (n + 1) ba = (.ok (s :: ss), b)) :
    ∃ b1, readStringF16 host ba = (.ok s, b1) ∧ readStrings host n b1 = (.ok ss, b) := by
  rw [readStrings] at h
  rcases h1 : readStringF16 host ba with ⟨e | t, b1⟩
  · rw [bind_error h1] at h
    cases h
  · rw [bind_ok h1] at h
    rcases h2 : readStrings host n b1 with ⟨e | ts, b2⟩
    · rw [bind_error h2] at h
      cases h
    · rw [bind_ok h2, pure_apply, Prod.mk.injEq, Except.ok.injEq, List.cons.injEq] at h
      obtain ⟨⟨rfl, rfl⟩, rfl⟩ := h
      exact ⟨b1, rfl, h2⟩

/-- reading them back, the first string that is too long is not what comes back in its place -/
theorem le_of_readStrings (host : Endian) (ss : List (List UInt8)) (h0 : ∀ s ∈ ss, s ≠ []) {ba b : ByteArray} {f : Flat}
    (h : Rel ba f) {r : List UInt8} (hrest : f.rest = frames host ba.endian ss ++ r)
    (hread : readStrings host ss.length ba = (.ok ss, b)) : ∀ s ∈ ss, s.length ≤ 65535 := by
  induction ss generalizing ba f with
  | nil => exact fun s hs => absurd hs List.not_mem_nil
  | cons s ss ih =>
    obtain ⟨b1, h1, h2⟩ := readStrings_cons hread
    have hsplit : f.rest = (Format.f16.lead host ba.endian s.length ++ s) ++ (frames host ba.endian ss ++ r) := by
      rw [hrest, ← List.append_assoc]
      rfl
    have hs : s.length ≤ 65535 := by
      have hlen := readStringF16_length h (hsplit.trans (List.append_assoc _ _ _)) h1
      have := Nat.mod_lt s.length (show 0 < 65536 by decide)
      omega
    have hpos : 1 ≤ s.length := List.length_pos_iff.mpr (h0 s List.mem_cons_self)
    obtain ⟨b1', f1, k1, hrel, he, -, -, hrest₁⟩ := Format.f16.decodes host ba.endian hpos hs ba f _ h rfl hsplit
    obtain rfl : b1' = b1 := (Prod.mk.inj ((show readStringF16 host ba = _ from k1).symm.trans h1)).2
    rw [← he] at hrest₁
    intro t ht
    rcases List.mem_cons.mp ht with rfl | ht
    · exact hs
    · exact ih (fun u hu => h0 u (List.mem_cons_of_mem s hu)) hrel hrest₁ h2 t ht

/-- the strings stored on a fresh array, rewound -/
theorem storeAll_rewound (host : Endian) {base : ℕ} (hb : 1 ≤ base) (junk : ℕ → UInt8) (ss : List (List UInt8)) :
    ∃ b f, setPosition 0 (storeAll host junk ss (new base junk)).2 = (.ok (), b) ∧ Rel b f ∧
      f.rest = frames host b.endian ss ++ [] := by
  obtain ⟨-, -, he, f, hrel, hcont⟩ := storeAll_spec host junk ss (rel_new base junk hb) rfl
  obtain ⟨b, h, hrel', hframe⟩ := setPosition_rel hrel (Nat.zero_le f.size)
  refine ⟨b, _, h, hrel', ?_⟩
  rw [hframe.endian, he, List.append_nil]
  exact hcont

theorem Framed.lengths {host : Endian} {base : ℕ} {junk : ℕ → UInt8} {ss : List (List UInt8)}
    (h : Framed host base junk ss) (hb : 1 ≤ base) (h0 : ∀ s ∈ ss, s ≠ []) : ∀ s ∈ ss, s.length ≤ 65535 := by
  obtain ⟨-, hstored, -⟩ := storeAll_spec host junk ss (rel_new base junk hb) rfl
  obtain ⟨b, f, hseek, hrel, hrest⟩ := storeAll_rewound host hb junk ss
  obtain ⟨-, b2, b3, h2, h3⟩ := h
  obtain rfl : b = b2 := (Prod.mk.inj (hseek.symm.trans h2)).2
  rw [hstored] at h3
  exact le_of_readStrings host ss h0 hrel hrest h3

/-- **Framing.** On a fresh array of any block size no call of `writeStringF16` throws, and a list of strings that are
not empty is read back as it was written if and only if every one of them has at most 65535 bytes. -/
theorem framing_iff (host : Endian) (base : ℕ) (hb : 1 ≤ base) (junk : ℕ → UInt8) (ss : List (List UInt8))
    (h0 : ∀ s ∈ ss, s ≠ []) : Framed host base junk ss ↔ ∀ s ∈ ss, s.length ≤ 65535 := by
  constructor
  · intro h
    exact h.lengths hb h0
  · intro hlim
    obtain ⟨hclean, hstored, -⟩ := storeAll_spec host junk ss (rel_new base junk hb) rfl
    obtain ⟨b2, f, h2, hrel, hrest⟩ := storeAll_rewound host hb junk ss
    have hdec := readStrings_spec host b2.endian ss fun s hs => ⟨List.length_pos_iff.mpr (h0 s hs), hlim s hs⟩
    obtain ⟨b3, f3, h3, -⟩ := hdec b2 f [] hrel rfl hrest
    refine ⟨hclean, b2, b3, h2, ?_⟩
    rw [hstored]
    exact h3

theorem framing_iff_two : Framed .little 1 (fun _ => 0) [[1, 2], [3]] :=
  (framing_iff .little 1 (by decide) (fun _ => 0) [[1, 2], [3]] (by decide)).mpr (by decide)

/-- 65536 bytes behind a length of 0 -/
theorem framing_broken :
    let ss : List (List UInt8) := [List.replicate 65536 7, [1]]
    (∀ s ∈ ss, s ≠ []) ∧ ¬Framed .little 4096 (fun _ => 0) ss := by
  intro ss
  have h0 : ∀ s ∈ ss, s ≠ [] := by
    intro s hs
    simp only [ss, List.mem_cons, List.not_mem_nil, or_false] at hs
    rcases hs with rfl | rfl
    · exact fun hnil => absurd (congrArg List.length hnil) (by rw [List.length_replicate]; decide)
    · decide
  refine ⟨h0, ?_⟩
  intro h
  have hlong := h.lengths (by decide) h0 _ List.mem_cons_self
  rw [List.length_replicate] at hlong
  omega

end Sylar.ByteArray
