/-
The text of an IPv4 address (`IPv4Address::Create`, the constructors, `IPv4Address::insert`).

`inet_pton` stores the octets in the order in which they are written. `insert` shifts by 24, 10, 8 and 0, so that the
second number it prints is made of the low bits of the second octet and the high bits of the third (`insert_bytes`).
- `ipv4_text_iff`: an address is printed as it was given, in both constructions, exactly if it is 0.0.0.0; two pairs
  of an address and a port are printed differently unless they agree in all but the high bits of the second octet.
- `ten_one_two_three`: `10.1.2.3:80` is printed as `10.64.2.3:80`, and so is `10.5.2.3:80`.
-/
import Mathlib.Tactic
import Sylar.Core.LeBytes
import Sylar.Core.Text
import Sylar.Core.Words
import Sylar.Core.Numerals
import Sylar.ByteArray.Codec
import Sylar.Http.Message
import Sylar.Address.Model

namespace Sylar.Address

open Sylar.Core Sylar.ByteArray Sylar.Http

/-- the four octets, as they are written -/
structure Octets where
  b0 : UInt8
  b1 : UInt8
  b2 : UInt8
  b3 : UInt8
deriving DecidableEq, Repr

def Octets.bytes (o : Octets) : Bytes := [o.b0, o.b1, o.b2, o.b3]

/-- the integer with these octets -/
def Octets.word (o : Octets) : BitVec 32 := BitVec.ofNat 32 (ofLE o.bytes.reverse)

/-! ## The operations -/

/-- `1` to `3` digits, no leading zero, at most 255 -/
def octetValue (s : Bytes) : Option UInt8 :=
  if s.length ≤ 3 ∧ s ≠ [] ∧ (s.head? = some 48 → s.length = 1) then
    (value 10 s).bind fun v => if v < 256 then some v.toUInt8 else none
  else none

/-- `inet_pton(AF_INET, ..)` -/
def inetPton4 (s : Bytes) : Option Octets :=
  match s.splitOn 46 with
  | [s0, s1, s2, s3] => do return ⟨← octetValue s0, ← octetValue s1, ← octetValue s2, ← octetValue s3⟩
  | _ => none

def IPv4Address.create (address : Bytes) (port : BitVec 16 := 0) : Option IPv4Address :=
  let rt := IPv4Address.ofWord
  (inetPton4 address).map fun o =>
    ⟨{ rt.addr with sinPort := swapPort port, sAddr := ofImage .little 4 o.bytes }⟩

def IPv4Address.insert (a : IPv4Address) : Bytes :=
  let addr : BitVec 32 := byteswapOnLittleEndian 4 a.addr.sAddr
  decimal ((addr >>> 24) &&& 0xff).toNat ++ ascii "." ++ decimal ((addr >>> 10) &&& 0xff).toNat ++ ascii "." ++
    decimal ((addr >>> 8) &&& 0xff).toNat ++ ascii "." ++ decimal (addr &&& 0xff).toNat ++
    (ascii ":" ++ decimal (swapPort a.addr.sinPort).toNat)

/-! ## What is meant -/

/-- four numbers with dots between them -/
def dotted (n0 n1 n2 n3 : ℕ) : Bytes :=
  decimal n0 ++ 46 :: (decimal n1 ++ 46 :: (decimal n2 ++ 46 :: decimal n3))

def Octets.text (o : Octets) : Bytes := dotted o.b0.toNat o.b1.toNat o.b2.toNat o.b3.toNat

def withPort (s : Bytes) (port : BitVec 16) : Bytes := s ++ 58 :: decimal port.toNat

/-- what is printed of the address that is made from the text -/
def printed (x : Octets × BitVec 16) : Option Bytes := (IPv4Address.create x.1.text x.2).map IPv4Address.insert

/-- both constructions print what was given -/
def TextRight (x : Octets × BitVec 16) : Prop :=
  printed x = some (withPort x.1.text x.2) ∧ (IPv4Address.ofWord x.1.word x.2).insert = withPort x.1.text x.2

/-- the octet that stands in the place of the second one -/
def Octets.second (o : Octets) : ℕ := o.b1.toNat % 4 * 64 + o.b2.toNat / 4

/-- the pairs agree, but for the high bits of the second octet -/
def Alike (x y : Octets × BitVec 16) : Prop :=
  x.1.b0 = y.1.b0 ∧ x.1.b1.toNat % 4 = y.1.b1.toNat % 4 ∧ x.1.b2 = y.1.b2 ∧ x.1.b3 = y.1.b3 ∧ x.2 = y.2

/-! ## Reading -/

theorem octetValue_decimal : ∀ c : UInt8, octetValue (decimal c.toNat) = some c := forall_byte (by decide +kernel)

theorem inetPton4_text (o : Octets) : inetPton4 o.text = some o := by
  have hpieces :
      o.text.splitOn 46 = [decimal o.b0.toNat, decimal o.b1.toNat, decimal o.b2.toNat, decimal o.b3.toNat] := by
    have htext : o.text =
        [46].intercalate [decimal o.b0.toNat, decimal o.b1.toNat, decimal o.b2.toNat, decimal o.b3.toNat] := by
      simp [Octets.text, dotted, List.intercalate, List.intersperse]
    rw [htext]
    apply List.splitOn_intercalate
    · intro s hs
      simp only [List.mem_cons, List.not_mem_nil, or_false] at hs
      rcases hs with rfl | rfl | rfl | rfl <;> exact decimal_plain (by decide) _
    · exact List.cons_ne_nil _ _
  rw [inetPton4, hpieces]
  simp only [octetValue_decimal]
  rfl

/-! ## Printing -/

theorem swap_word (o : Octets) : byteswapOnLittleEndian 4 (ofImage .little 4 o.bytes) = o.word := byteswap_ofImage rfl

theorem word_toNat (o : Octets) :
    o.word.toNat = o.b3.toNat + 256 * (o.b2.toNat + 256 * (o.b1.toNat + 256 * o.b0.toNat)) := by
  have hlen : o.bytes.reverse.length = 4 := rfl
  have hlt := ofLE_lt o.bytes.reverse
  rw [hlen] at hlt
  rw [Octets.word, BitVec.toNat_ofNat, Nat.mod_eq_of_lt (hlt.trans_eq (by norm_num))]
  rfl

theorem low_toNat (w : BitVec 32) : (w &&& 0xff).toNat = w.toNat % 256 := by
  have hff : (0xff : BitVec 32).toNat = 2 ^ 8 - 1 := rfl
  rw [BitVec.toNat_and, hff, Nat.and_two_pow_sub_one_eq_mod]

/-- the second number is made of two octets -/
theorem insert_bytes (f : ℕ) (o : Octets) (p : BitVec 16) :
    IPv4Address.insert ⟨⟨f, swapPort p, ofImage .little 4 o.bytes⟩⟩ =
      withPort (dotted o.b0.toNat o.second o.b2.toNat o.b3.toNat) p := by
  have h0 := o.b0.toNat_lt
  have h1 := o.b1.toNat_lt
  have h2 := o.b2.toNat_lt
  have h3 := o.b3.toNat_lt
  have hb0 : o.word.toNat / 2 ^ 24 % 256 = o.b0.toNat := by rw [word_toNat]; omega
  have hb1 : o.word.toNat / 2 ^ 10 % 256 = o.second := by rw [word_toNat, Octets.second]; omega
  have hb2 : o.word.toNat / 2 ^ 8 % 256 = o.b2.toNat := by rw [word_toNat]; omega
  have hb3 : o.word.toNat % 256 = o.b3.toNat := by rw [word_toNat]; omega
  have hdot : ascii "." = [46] := rfl
  have hcolon : ascii ":" = [58] := rfl
  simp only [IPv4Address.insert, swap_word, low_toNat, BitVec.toNat_ushiftRight, Nat.shiftRight_eq_div_pow, hb0, hb1,
    hb2, hb3, swapPort_swapPort, hdot, hcolon, withPort, dotted, List.append_assoc, List.cons_append, List.nil_append]

theorem printed_eq (x : Octets × BitVec 16) :
    printed x = some (withPort (dotted x.1.b0.toNat x.1.second x.1.b2.toNat x.1.b3.toNat) x.2) := by
  rw [printed, IPv4Address.create, inetPton4_text]
  exact congrArg some (insert_bytes AF_INET x.1 x.2)

/-- an address made from an integer -/
theorem insert_ofWord (w : BitVec 32) (p : BitVec 16) :
    (IPv4Address.ofWord w p).insert = withPort (⟨0, 0, 0, 0⟩ : Octets).text p :=
  insert_bytes AF_INET ⟨0, 0, 0, 0⟩ p

/-! ## Equal texts -/

theorem withPort_inj {n0 n1 n2 n3 m0 m1 m2 m3 : ℕ} {p q : BitVec 16} :
    withPort (dotted n0 n1 n2 n3) p = withPort (dotted m0 m1 m2 m3) q ↔
      n0 = m0 ∧ n1 = m1 ∧ n2 = m2 ∧ n3 = m3 ∧ p = q := by
  constructor
  · intro h
    have hdot : ∀ n, 46 ∉ decimal n := decimal_plain (by decide)
    simp only [withPort, dotted, List.append_assoc, List.cons_append] at h
    obtain ⟨h0, h⟩ := append_sep_inj (hdot _) (hdot _) h
    obtain ⟨h1, h⟩ := append_sep_inj (hdot _) (hdot _) h
    obtain ⟨h2, h⟩ := append_sep_inj (hdot _) (hdot _) h
    obtain ⟨h3, h⟩ := append_sep_inj (decimal_plain (by decide) _) (decimal_plain (by decide) _) h
    exact ⟨decimal_inj h0, decimal_inj h1, decimal_inj h2, decimal_inj h3, BitVec.eq_of_toNat_eq (decimal_inj h)⟩
  · rintro ⟨rfl, rfl, rfl, rfl, rfl⟩
    rfl

theorem text_inj {o o' : Octets} {p q : BitVec 16} : withPort o.text p = withPort o'.text q ↔ o = o' ∧ p = q := by
  rw [Octets.text, Octets.text, withPort_inj, UInt8.toNat_inj, UInt8.toNat_inj, UInt8.toNat_inj, UInt8.toNat_inj]
  cases o
  cases o'
  rw [Octets.mk.injEq, and_assoc, and_assoc, and_assoc]

/-- the numbers that are printed in the second place -/
theorem second_eq_iff {o o' : Octets} (h2 : o.b2 = o'.b2) :
    o.second = o'.second ↔ o.b1.toNat % 4 = o'.b1.toNat % 4 := by
  rw [Octets.second, Octets.second, h2]
  omega

theorem printed_eq_iff (x y : Octets × BitVec 16) : printed x = printed y ↔ Alike x y := by
  rw [printed_eq, printed_eq, Option.some.injEq, withPort_inj, UInt8.toNat_inj, UInt8.toNat_inj, UInt8.toNat_inj, Alike]
  constructor
  · intro ⟨h0, h1, h2, h3, hp⟩
    exact ⟨h0, (second_eq_iff h2).mp h1, h2, h3, hp⟩
  · intro ⟨h0, h1, h2, h3, hp⟩
    exact ⟨h0, (second_eq_iff h2).mpr h1, h2, h3, hp⟩

/-- an address that is made from its text is printed as it was given if its second octet stands in its place -/
theorem printed_eq_self (x : Octets × BitVec 16) :
    printed x = some (withPort x.1.text x.2) ↔ x.1.second = x.1.b1.toNat := by
  rw [printed_eq, Option.some.injEq, Octets.text, withPort_inj]
  constructor
  · intro ⟨_, h1, _, _, _⟩
    exact h1
  · intro h1
    exact ⟨rfl, h1, rfl, rfl, rfl⟩

/-- an address that is made from an integer is printed as 0.0.0.0 -/
theorem insert_ofWord_eq_self (x : Octets × BitVec 16) :
    (IPv4Address.ofWord x.1.word x.2).insert = withPort x.1.text x.2 ↔ x.1 = ⟨0, 0, 0, 0⟩ := by
  rw [insert_ofWord, text_inj, and_iff_left rfl, eq_comm]

/-- **When an IPv4 address is printed as it was given, and when two pairs are printed differently.** -/
theorem ipv4_text_iff (x y : Octets × BitVec 16) :
    (TextRight x ↔ x.1 = ⟨0, 0, 0, 0⟩) ∧ ((x ≠ y → printed x ≠ printed y) ↔ x = y ∨ ¬Alike x y) := by
  constructor
  · rw [TextRight, printed_eq_self, insert_ofWord_eq_self]
    constructor
    · intro ⟨_, hzero⟩
      exact hzero
    · intro hzero
      refine ⟨?_, hzero⟩
      rw [hzero]
      rfl
  · rw [ne_eq, ne_eq, printed_eq_iff]
    tauto

/-- two addresses that are printed alike, neither as it was given -/
theorem ten_one_two_three :
    ¬TextRight (⟨10, 1, 2, 3⟩, 80) ∧ printed (⟨10, 1, 2, 3⟩, 80) = some (ascii "10.64.2.3:80") ∧
      printed (⟨10, 5, 2, 3⟩, 80) = some (ascii "10.64.2.3:80") := by
  refine ⟨?_, by decide +kernel, by decide +kernel⟩
  intro ⟨hprinted, _⟩
  revert hprinted
  decide +kernel

end Sylar.Address
