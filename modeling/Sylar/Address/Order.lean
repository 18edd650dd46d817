/-
The order of addresses (`Address::operator<`, `operator==`, `operator!=`) and `UnixAddress`.

Two addresses are compared as memory: as many bytes as the shorter one has, and then the lengths. The length of a
`UnixAddress` is a field of its own, and `setAddrLen` puts any number in it; with one past the structure `memcmp` looks
at what lies behind it (`behind`). The constructors do not give such a length (`within_init`, `within_ofPath`).
- `memcmp_spec`: the sign of `memcmp` is the lexicographic order of the bytes.
- `less_iff`, `equal_iff`: the operators compare the first `getAddrLen()` bytes, as lists.
- `address_order`: so they are a strict total order with its equality.
-/
import Mathlib.Tactic
import Sylar.Core.LeBytes
import Sylar.Core.Lex
import Sylar.Core.OrdSet
import Sylar.Core.Splice
import Sylar.ByteArray.Codec
import Sylar.Address.Model

namespace Sylar.Address

open Sylar.Core Sylar.ByteArray

/-- the memory of `n` bytes -/
structure Memory (n : ℕ) where
  bytes : Bytes
  size : bytes.length = n
deriving DecidableEq, Repr

def AF_UNIX : ℕ := 1

/-- `sizeof(sun_path)` -/
def sunPathSize : ℕ := 108

/-- `offsetof(sockaddr_un, sun_path)` -/
def sunPathOffset : ℕ := 2

def MAX_PATH_LEN : ℕ := sunPathSize - 1

/-- `m_addr` and `m_length`, and the bytes behind `m_addr` -/
structure UnixAddress where
  sunFamily : BitVec 16
  sunPath : Memory sunPathSize
  mLength : BitVec 32
  behind : ℕ → UInt8

namespace UnixAddress

/-- `UnixAddress()` -/
def init (behind : ℕ → UInt8) : UnixAddress where
  sunFamily := BitVec.ofNat 16 AF_UNIX
  sunPath := ⟨List.replicate sunPathSize 0, List.length_replicate⟩
  mLength := BitVec.ofNat 32 (sunPathOffset + MAX_PATH_LEN)
  behind

/-- `memcpy` of at most the whole to the start of a path of zeros -/
def pathOf (bs : Bytes) (h : bs.length ≤ sunPathSize) : Memory sunPathSize :=
  ⟨bs ++ List.replicate (sunPathSize - bs.length) 0, by rw [List.length_append, List.length_replicate]; omega⟩

/-- the bytes of a path, with its terminator if it does not begin with one -/
def pathLength (path : Bytes) : BitVec 32 :=
  let length : BitVec 32 := BitVec.ofNat 32 (path.length + 1)
  if path.head? = some 0 then length - 1 else length

/-- `UnixAddress(const std::string&)`; `none` is the exception -/
def ofPath (path : Bytes) (behind : ℕ → UInt8) : Option UnixAddress :=
  if h : (pathLength path).toNat ≤ sunPathSize then
    some
      { sunFamily := BitVec.ofNat 16 AF_UNIX
        sunPath := pathOf ((path ++ [0]).take (pathLength path).toNat) (le_trans (List.length_take_le _ _) h)
        mLength := pathLength path + BitVec.ofNat 32 sunPathOffset
        behind }
  else none

def setAddrLen (u : UnixAddress) (v : BitVec 32) : UnixAddress := { u with mLength := v }

end UnixAddress

/-- an object of a class that is derived from `Address`; the bytes `sin_zero` are not in `SockaddrIn` -/
inductive AddressObject where
  | ipv4 (a : IPv4Address) (sinZero : Memory 8)
  | ipv6 (a : IPv6Address)
  | unix (u : UnixAddress)
  | unknown (mAddr : Memory 16)

namespace AddressObject

/-- the bytes of `m_addr` -/
def image : AddressObject → Bytes
  | ipv4 a sinZero =>
    toLE 2 a.addr.sinFamily ++ ByteArray.image .little 2 a.addr.sinPort ++ ByteArray.image .little 4 a.addr.sAddr ++
      sinZero.bytes
  | ipv6 a =>
    toLE 2 a.addr.sin6Family ++ ByteArray.image .little 2 a.addr.sin6Port ++
      ByteArray.image .little 4 a.addr.sin6Flowinfo ++ a.addr.sin6Addr.s6Addr ++
      ByteArray.image .little 4 a.addr.sin6ScopeId
  | unix u => ByteArray.image .little 2 u.sunFamily ++ u.sunPath.bytes
  | unknown mAddr => mAddr.bytes

/-- what lies behind `m_addr` -/
def behind : AddressObject → ℕ → UInt8
  | unix u => u.behind
  | _ => fun _ => 0

/-- the bytes at the pointer `getAddr()` -/
def getAddr (a : AddressObject) (i : ℕ) : UInt8 :=
  if h : i < a.image.length then a.image[i] else a.behind (i - a.image.length)

def getAddrLen : AddressObject → ℕ
  | ipv4 _ _ => 16
  | ipv6 _ => 28
  | unix u => u.mLength.toNat
  | unknown _ => 16

/-- of its value only the sign is used -/
def memcmp (p q : ℕ → UInt8) : ℕ → ℤ
  | 0 => 0
  | n + 1 => if p 0 = q 0 then memcmp (fun i => p (i + 1)) (fun i => q (i + 1)) n else (p 0).toNat - (q 0).toNat

/-- `operator<` -/
def less (a rhs : AddressObject) : Bool :=
  let minlen := min a.getAddrLen rhs.getAddrLen
  let result := memcmp a.getAddr rhs.getAddr minlen
  if result < 0 then true
  else if result > 0 then false
  else if a.getAddrLen < rhs.getAddrLen then true
  else false

/-- `operator==` -/
def equal (a rhs : AddressObject) : Bool :=
  a.getAddrLen = rhs.getAddrLen && memcmp a.getAddr rhs.getAddr a.getAddrLen = 0

/-- `operator!=` -/
def notEqual (a rhs : AddressObject) : Bool := !(a.equal rhs)

/-! ## The bytes compared -/

/-- the first `n` bytes, as numbers -/
def firstBytes (p : ℕ → UInt8) (n : ℕ) : List ℕ := List.ofFn fun i : Fin n => (p i).toNat

@[simp] theorem firstBytes_length (p : ℕ → UInt8) (n : ℕ) : (firstBytes p n).length = n := List.length_ofFn

theorem firstBytes_succ (p : ℕ → UInt8) (n : ℕ) :
    firstBytes p (n + 1) = (p 0).toNat :: firstBytes (fun i => p (i + 1)) n := by
  rw [firstBytes, List.ofFn_succ]
  rfl

theorem take_firstBytes (p : ℕ → UInt8) {m n : ℕ} (h : m ≤ n) : (firstBytes p n).take m = firstBytes p m := by
  apply List.ext_getElem
  · rw [List.length_take, firstBytes_length, firstBytes_length, min_eq_left h]
  · intro i _ _
    simp [firstBytes]

/-- one byte decides if the two differ there, and else the rest does -/
theorem memcmp_spec (p q : ℕ → UInt8) (n : ℕ) :
    (memcmp p q n < 0 ↔ firstBytes p n < firstBytes q n) ∧ (memcmp p q n = 0 ↔ firstBytes p n = firstBytes q n) := by
  induction n generalizing p q with
  | zero => simp [memcmp, firstBytes]
  | succ n ih =>
    obtain ⟨hlt, heq⟩ := ih (fun i => p (i + 1)) fun i => q (i + 1)
    rw [firstBytes_succ, firstBytes_succ, List.cons_lt_cons_iff, List.cons.injEq, memcmp]
    split_ifs with h
    · rw [h]
      simp [hlt, heq]
    · have hne : (p 0).toNat ≠ (q 0).toNat := fun e => h (UInt8.toNat_inj.mp e)
      constructor
      · simp [hne]
      · simp only [hne, false_and, iff_false]
        omega

/-- the first `getAddrLen()` bytes -/
def key (a : AddressObject) : List ℕ := firstBytes a.getAddr a.getAddrLen

theorem key_length (a : AddressObject) : a.key.length = a.getAddrLen := firstBytes_length _ _

theorem take_key (a : AddressObject) {m : ℕ} (h : m ≤ a.getAddrLen) : a.key.take m = firstBytes a.getAddr m :=
  take_firstBytes _ h

theorem less_iff (a b : AddressObject) : less a b = true ↔ a.key < b.key := by
  have hspec := memcmp_spec a.getAddr b.getAddr (min a.getAddrLen b.getAddrLen)
  rw [← a.take_key (min_le_left _ _), ← b.take_key (min_le_right _ _)] at hspec
  rw [lt_iff_take, key_length, key_length, ← hspec.1, ← hspec.2]
  unfold less
  dsimp only
  split_ifs with h1 h2 h3
  · simp [h1]
  · simp [h1, h2.ne']
  · simp [show memcmp a.getAddr b.getAddr (min a.getAddrLen b.getAddrLen) = 0 by omega, h3]
  · simp [h1, h3]

theorem equal_iff (a b : AddressObject) : equal a b = true ↔ a.key = b.key := by
  unfold equal
  rw [Bool.and_eq_true, decide_eq_true_eq, decide_eq_true_eq, eq_iff_take, key_length, key_length]
  apply and_congr_right
  intro hlen
  rw [(memcmp_spec _ _ _).2, a.take_key le_rfl, b.take_key hlen.le]

/-- **The order of addresses.** Of all addresses, of any kinds and lengths: `<` is irreflexive and transitive, exactly
one of `a < b`, `a == b` and `b < a` holds, equal are those whose first `getAddrLen()` bytes are, and `!=` is the
negation of `==`; so they can be the elements of a `std::set`. -/
theorem address_order :
    (∀ a, less a a = false) ∧ (∀ a b c, less a b = true → less b c = true → less a c = true) ∧
      (∀ a b, [less a b, equal a b, less b a].count true = 1) ∧
      (∀ a b, equal a b = true ↔ a.getAddrLen = b.getAddrLen ∧ ∀ i < a.getAddrLen, a.getAddr i = b.getAddr i) ∧
      (∀ a b, notEqual a b = !equal a b) ∧ OrdSet.WeakOrder less equal := by
  have horder := OrdSet.WeakOrder.of_key key less_iff equal_iff
  refine ⟨horder.irrefl, horder.trans, OrdSet.count_of_key key less_iff equal_iff, ?_, fun _ _ => rfl, horder⟩
  intro a b
  rw [equal_iff]
  constructor
  · intro h
    have hlen := congrArg List.length h
    rw [key_length, key_length] at hlen
    refine ⟨hlen, fun i hi => ?_⟩
    have hget := congrArg (·[i]?) h
    simpa [key, firstBytes, hi, hlen ▸ hi, UInt8.toNat_inj] using hget
  · rintro ⟨hlen, hbytes⟩
    rw [key, key, ← hlen, firstBytes, firstBytes, List.ofFn_inj]
    funext i
    rw [hbytes i i.isLt]

/-! ## Lengths within the structure -/

theorem image_unix_length (u : UnixAddress) : (unix u).image.length = 110 := by
  rw [image, List.length_append, u.sunPath.size]
  rfl

/-- what lies behind the structure does not matter to an address of such a length -/
theorem key_within {u : UnixAddress} (h : u.mLength.toNat ≤ 110) (behind : ℕ → UInt8) :
    (unix { u with behind }).key = (unix u).key := by
  have himage : (unix { u with behind }).image = (unix u).image := rfl
  have hlen : (unix { u with behind }).getAddrLen = (unix u).getAddrLen := rfl
  rw [key, key, hlen, firstBytes, firstBytes, List.ofFn_inj]
  funext i
  have hi : (i : ℕ) < 110 := lt_of_lt_of_le i.isLt h
  have h1 : (i : ℕ) < (unix u).image.length := by rwa [image_unix_length]
  rw [getAddr, getAddr, dif_pos h1, dif_pos (by rwa [himage])]
  simp only [himage]

theorem within_init (behind : ℕ → UInt8) : (UnixAddress.init behind).mLength.toNat ≤ 110 := by
  show (BitVec.ofNat 32 (2 + 107)).toNat ≤ 110
  decide

theorem within_ofPath {path : Bytes} {behind : ℕ → UInt8} {u : UnixAddress}
    (h : UnixAddress.ofPath path behind = some u) : u.mLength.toNat ≤ 110 := by
  unfold UnixAddress.ofPath at h
  split_ifs at h with hle
  obtain rfl := Option.some.inj h
  show (UnixAddress.pathLength path + BitVec.ofNat 32 2).toNat ≤ 110
  have hle : (UnixAddress.pathLength path).toNat ≤ 108 := hle
  rw [BitVec.toNat_add, show (BitVec.ofNat 32 2).toNat = 2 from rfl]
  omega

end AddressObject

end Sylar.Address
