/-
Internet addresses (`address.h`, `address.cpp`): the structures of the sockets, the constructors, ports.

Ports and addresses are stored in network order. `endian.h` has `byteswapOnLittleEndian` on little-endian hosts only,
so that the host is one. The bytes of an IPv6 address are a list that carries its length (`In6Addr`).
-/
import Mathlib.Tactic
import Sylar.Core.LeBytes
import Sylar.ByteArray.Codec

namespace Sylar.Address

open Sylar.Core Sylar.ByteArray

abbrev Bytes := List UInt8

def AF_INET : ℕ := 2

def AF_INET6 : ℕ := 10

/-- of a value with `k` bytes -/
def byteswapOnLittleEndian (k : ℕ) (t : BitVec (8 * k)) : BitVec (8 * k) := byteswap k t

/-- the value of bytes that are stored in network order -/
theorem byteswap_ofImage {k : ℕ} {bs : Bytes} (h : bs.length = k) :
    byteswapOnLittleEndian k (ofImage .little k bs) = BitVec.ofNat (8 * k) (ofLE bs.reverse) := by
  rw [byteswapOnLittleEndian, ofImage, byteswap, toLE_ofNat_ofLE h]

/-- `byteswapOnLittleEndian` of a `uint16_t` -/
def swapPort (v : BitVec 16) : BitVec 16 := byteswapOnLittleEndian 2 v

@[simp] theorem swapPort_swapPort (v : BitVec 16) : swapPort (swapPort v) = v := byteswap_byteswap 2 v

/-! ## IPv4 -/

/-- `struct sockaddr_in`; `sAddr` is `sin_addr.s_addr` -/
structure SockaddrIn where
  sinFamily : ℕ := 0
  sinPort : BitVec 16 := 0
  sAddr : BitVec 32 := 0
deriving DecidableEq, Repr

structure IPv4Address where
  addr : SockaddrIn
deriving DecidableEq, Repr

/-- `IPv4Address(uint32_t, uint16_t)`: the address is not used -/
def IPv4Address.ofWord (_address : BitVec 32 := 0) (port : BitVec 16 := 0) : IPv4Address :=
  ⟨{ sinFamily := AF_INET, sinPort := swapPort port }⟩

def IPv4Address.getPort (a : IPv4Address) : BitVec 16 := swapPort a.addr.sinPort

def IPv4Address.setPort (a : IPv4Address) (v : BitVec 16) : IPv4Address := ⟨{ a.addr with sinPort := swapPort v }⟩

@[simp] theorem IPv4Address.getPort_setPort (a : IPv4Address) (v : BitVec 16) : (a.setPort v).getPort = v :=
  swapPort_swapPort v

/-! ## IPv6 -/

/-- `struct in6_addr` -/
structure In6Addr where
  s6Addr : List UInt8
  size : s6Addr.length = 16
deriving DecidableEq, Repr

theorem In6Addr.ext {a b : In6Addr} (h : a.s6Addr = b.s6Addr) : a = b := by
  cases a
  cases b
  simp_all

def In6Addr.zero : In6Addr := ⟨List.replicate 16 0, List.length_replicate⟩

structure SockaddrIn6 where
  sin6Family : ℕ := 0
  sin6Port : BitVec 16 := 0
  sin6Flowinfo : BitVec 32 := 0
  sin6Addr : In6Addr := In6Addr.zero
  sin6ScopeId : BitVec 32 := 0
deriving DecidableEq, Repr

structure IPv6Address where
  addr : SockaddrIn6
deriving DecidableEq, Repr

/-- `IPv6Address()` -/
def IPv6Address.init : IPv6Address := ⟨{ sin6Family := AF_INET6 }⟩

/-- `IPv6Address(const uint8_t[16], uint16_t)` -/
def IPv6Address.ofBytes (address : In6Addr) (port : BitVec 16 := 0) : IPv6Address :=
  ⟨{ sin6Family := AF_INET6, sin6Port := swapPort port, sin6Addr := address }⟩

def IPv6Address.getPort (a : IPv6Address) : BitVec 16 := swapPort a.addr.sin6Port

def IPv6Address.setPort (a : IPv6Address) (v : BitVec 16) : IPv6Address := ⟨{ a.addr with sin6Port := swapPort v }⟩

@[simp] theorem IPv6Address.getPort_setPort (a : IPv6Address) (v : BitVec 16) : (a.setPort v).getPort = v :=
  swapPort_swapPort v

@[simp] theorem getPort_ofBytes (address : In6Addr) (port : BitVec 16) :
    (IPv6Address.ofBytes address port).getPort = port :=
  swapPort_swapPort port

end Sylar.Address
