/-
The chunked byte buffer (`sylar/bytearray.h`, `sylar/bytearray.cpp`), without its typed codecs.

A `ByteArray` is a singly linked list of blocks of `m_baseSize` bytes, a cursor `m_position`, the used size `m_size`,
and the cached node `m_cur` the cursor stands in. The chain from `m_root` is the list `nodes`; a `Node*` is a position
in it, `none` for the null pointer. Member functions are state passers that may throw (`M`): an exception leaves the
state as it was when it was thrown. Following a null `Node*` is the separate fault `Err.nullNode`, so "no null node is
dereferenced" is "no call ends in `nullNode`".

Sizes and positions are natural numbers. The one place where `size_t` wraps, `m_size - position` with an argument
`position` past the end, is `usub`. `ceil(1.0 * size / m_baseSize)` is the integer ceiling, exact below 2^53. Fresh
blocks are not initialised by the code, so every call that allocates takes the bytes it finds there (`junk`).
-/
import Mathlib.Tactic
import Sylar.Core.Splice

namespace Sylar

open Sylar.Core

/-- one block: `ptr` is the array of `size` bytes -/
structure Node where
  ptr : List UInt8
deriving DecidableEq, Repr

/-- `Node::size`, the length `ptr` was allocated with -/
def Node.size (nd : Node) : ℕ := nd.ptr.length

/-- `memcpy(ptr + npos, bs, |bs|)` -/
def Node.store (nd : Node) (npos : ℕ) (bs : List UInt8) : Node := ⟨splice nd.ptr npos bs⟩

/-- `new Node(s)` at array address `a`: the bytes are whatever the allocator left there -/
def Node.alloc (junk : ℕ → UInt8) (a s : ℕ) : Node := ⟨(List.range s).map fun j => junk (a + j)⟩

/-- `SYLAR_LITTLE_ENDIAN`, `SYLAR_BIG_ENDIAN` -/
inductive Endian where
  | little
  | big
deriving DecidableEq, Repr

structure ByteArray where
  baseSize : ℕ
  position : ℕ
  capacity : ℕ
  size : ℕ
  endian : Endian
  /-- the chain from `m_root` along `next` -/
  nodes : List Node
  /-- `m_cur`: the index of a node of the chain, or null -/
  cur : Option ℕ
deriving DecidableEq, Repr

/-- one entry of the `iovec` lists: `iov_base = nodes[node]->ptr + off`, `iov_len = len` -/
structure Iovec where
  node : ℕ
  off : ℕ
  len : ℕ
deriving DecidableEq, Repr

namespace ByteArray

/-- how a call can fail: `std::out_of_range` with its text, `std::length_error` of a string too long to be made, or a
null `Node*` followed -/
inductive Err where
  | outOfRange (what : String)
  | lengthError
  | nullNode
deriving DecidableEq, Repr

/-- member functions: the state survives an exception -/
def M (α : Type) : Type := ByteArray → Except Err α × ByteArray

instance : Monad M where
  pure a := fun ba => (.ok a, ba)
  bind m f := fun ba =>
    match m ba with
    | (.ok a, ba') => f a ba'
    | (.error e, ba') => (.error e, ba')

/-- the array itself, for the observers -/
def get : M ByteArray := fun ba => (.ok ba, ba)

theorem bind_ok {α β : Type} {m : M α} {f : α → M β} {ba ba' : ByteArray} {a : α} (h : m ba = (.ok a, ba')) :
    (m >>= f) ba = f a ba' := by
  show (match m ba with | (.ok a, ba') => f a ba' | (.error e, ba') => (.error e, ba')) = _
  rw [h]

theorem bind_error {α β : Type} {m : M α} {f : α → M β} {ba ba' : ByteArray} {e : Err} (h : m ba = (.error e, ba')) :
    (m >>= f) ba = (.error e, ba') := by
  show (match m ba with | (.ok a, ba') => f a ba' | (.error e, ba') => (.error e, ba')) = _
  rw [h]

@[simp] theorem pure_apply {α : Type} (a : α) (ba : ByteArray) : (pure a : M α) ba = (.ok a, ba) := rfl

theorem get_apply (ba : ByteArray) : get ba = (.ok ba, ba) := rfl

/-! ## Pointers and observers -/

/-- the `i`-th node of the chain, null past its end -/
def ptrAt (nodes : List Node) (i : ℕ) : Option ℕ := if i < nodes.length then some i else none

/-- where `m_cur` stands in the chain (its length for null) -/
def curIdx (ba : ByteArray) : ℕ := ba.cur.getD ba.nodes.length

/-- the chain from `m_cur` on; empty iff `m_cur` is null or dangling -/
def chain (ba : ByteArray) : List Node := ba.nodes.drop ba.curIdx

/-- `size_t` subtraction -/
def usub (a b : ℕ) : ℕ := if b ≤ a then a - b else a + 2 ^ 64 - b

def getReadSize (ba : ByteArray) : ℕ := ba.size - ba.position

def getCapacity (ba : ByteArray) : ℕ := ba.capacity - ba.position

/-- the bytes an `iovec` denotes -/
def iovBytes (nodes : List Node) (v : Iovec) : List UInt8 :=
  match nodes[v.node]? with
  | some nd => (nd.ptr.drop v.off).take v.len
  | none => []

/-! ## The node-crossing loops

Each loop runs over the chain from `m_cur`. `ncap` is `cur->size - npos` both when the loop is entered and after every
`cur = cur->next; ncap = cur->size; npos = 0`, and an empty chain is the null pointer whose `size` is read there. The
second component counts the `m_cur = m_cur->next` steps. -/

/-- the loop of `write`: the chain with `buf` copied in -/
def writeLoop : List Node → ℕ → List UInt8 → Option (List Node × ℕ)
  | [], _, _ => none
  | nd :: rest, npos, buf =>
    let ncap := nd.size - npos
    if ncap ≥ buf.length then
      some (nd.store npos buf :: rest, if nd.size = npos + buf.length then 1 else 0)
    else
      (writeLoop rest 0 (buf.drop ncap)).map fun r => (nd.store npos (buf.take ncap) :: r.1, r.2 + 1)

/-- the loop of both `read`s: the bytes copied out -/
def readLoop : List Node → ℕ → ℕ → Option (List UInt8 × ℕ)
  | [], _, _ => none
  | nd :: rest, npos, size =>
    let ncap := nd.size - npos
    if ncap ≥ size then
      some ((nd.ptr.drop npos).take size, if nd.size = npos + size then 1 else 0)
    else
      (readLoop rest 0 (size - ncap)).map fun r => ((nd.ptr.drop npos).take ncap ++ r.1, r.2 + 1)

/-- the loop of `getReadBuffers` and `getWriteBuffers`; `i` is the index of the first node of the chain -/
def iovLoop : List Node → ℕ → ℕ → ℕ → Option (List Iovec)
  | [], _, _, _ => none
  | nd :: rest, i, npos, len =>
    let ncap := nd.size - npos
    if ncap ≥ len then
      some [⟨i, npos, len⟩]
    else
      (iovLoop rest (i + 1) 0 (len - ncap)).map fun r => ⟨i, npos, ncap⟩ :: r

/-- the loop of `setPosition` and the step after it, from `m_root` -/
def seekLoop : List Node → ℕ → Option ℕ
  | [], _ => none
  | nd :: rest, v =>
    if v > nd.size then (seekLoop rest (v - nd.size)).map (· + 1)
    else some (if v = nd.size then 1 else 0)

/-! ## Member functions -/

/-- `ByteArray(base_size)` -/
def new (base : ℕ) (junk : ℕ → UInt8) : ByteArray :=
  { baseSize := base, position := 0, capacity := base, size := 0, endian := .big,
    nodes := [Node.alloc junk 0 base], cur := some 0 }

def isLittleEndian (ba : ByteArray) : Bool := ba.endian = .little

def setIsLittleEndian (val : Bool) : M Unit := fun ba => (.ok (), { ba with endian := if val then .little else .big })

def clear : M Unit := fun ba =>
  (.ok (), { ba with position := 0, size := 0, capacity := ba.baseSize, nodes := ba.nodes.take 1, cur := some 0 })

def addCapacity (size : ℕ) (junk : ℕ → UInt8) (ba : ByteArray) : ByteArray :=
  if size = 0 then ba
  else
    let old_cap := ba.getCapacity
    if old_cap ≥ size then ba
    else
      let count := (size - old_cap + ba.baseSize - 1) / ba.baseSize
      let nodes := ba.nodes ++ (List.range count).map fun k => Node.alloc junk (ba.capacity + k * ba.baseSize) ba.baseSize
      { ba with
        nodes := nodes
        capacity := ba.capacity + count * ba.baseSize
        cur := if old_cap = 0 then ptrAt nodes ba.nodes.length else ba.cur }

def write (buf : List UInt8) (junk : ℕ → UInt8) : M Unit := fun ba =>
  if buf.length = 0 then (.ok (), ba)
  else
    let ba := ba.addCapacity buf.length junk
    match writeLoop ba.chain (ba.position % ba.baseSize) buf with
    | none => (.error .nullNode, ba)
    | some (c, k) =>
      let nodes := ba.nodes.take ba.curIdx ++ c
      let position := ba.position + buf.length
      (.ok (), { ba with
        nodes := nodes
        cur := ptrAt nodes (ba.curIdx + k)
        position := position
        size := if position > ba.size then position else ba.size })

/-- `read(buf, size)`: `m_cur->size` is read before the loop, also for `size = 0` -/
def read (size : ℕ) : M (List UInt8) := fun ba =>
  if size > ba.getReadSize then (.error (.outOfRange "not enough len"), ba)
  else if ba.chain = [] then (.error .nullNode, ba)
  else if size = 0 then (.ok [], ba)
  else
    match readLoop ba.chain (ba.position % ba.baseSize) size with
    | none => (.error .nullNode, ba)
    | some (bs, k) => (.ok bs, { ba with cur := ptrAt ba.nodes (ba.curIdx + k), position := ba.position + size })

/-- `read(buf, size, position) const`: the node is `m_cur` whatever `position` is -/
def readAt (size position : ℕ) : M (List UInt8) := fun ba =>
  if size > usub ba.size position then (.error (.outOfRange "not enough len"), ba)
  else if ba.chain = [] then (.error .nullNode, ba)
  else if size = 0 then (.ok [], ba)
  else
    match readLoop ba.chain (position % ba.baseSize) size with
    | none => (.error .nullNode, ba)
    | some (bs, _) => (.ok bs, ba)

def setPosition (v : ℕ) : M Unit := fun ba =>
  if v > ba.capacity then (.error (.outOfRange "set_position out of range"), ba)
  else
    let ba := { ba with position := v, size := if v > ba.size then v else ba.size }
    match seekLoop ba.nodes v with
    | none => (.error .nullNode, ba)
    | some k => (.ok (), { ba with cur := ptrAt ba.nodes k })

def toString : M (List UInt8) := fun ba =>
  if ba.getReadSize = 0 then (.ok [], ba) else readAt ba.getReadSize ba.position ba

/-- `getReadBuffers(buffers, len)`: the return value and the entries appended to `buffers` -/
def getReadBuffers (len : ℕ) : M (ℕ × List Iovec) := fun ba =>
  let len := if len > ba.getReadSize then ba.getReadSize else len
  if len = 0 then (.ok (0, []), ba)
  else
    match iovLoop ba.chain ba.curIdx (ba.position % ba.baseSize) len with
    | none => (.error .nullNode, ba)
    | some iovs => (.ok (len, iovs), ba)

def getWriteBuffers (len : ℕ) (junk : ℕ → UInt8) : M (ℕ × List Iovec) := fun ba =>
  if len = 0 then (.ok (0, []), ba)
  else
    let ba := ba.addCapacity len junk
    match iovLoop ba.chain ba.curIdx (ba.position % ba.baseSize) len with
    | none => (.error .nullNode, ba)
    | some iovs => (.ok (len, iovs), ba)

/-! ## Calls as data -/

/-- a call of the public interface; the ones that can allocate carry what the fresh memory holds -/
inductive Call where
  | write (buf : List UInt8) (junk : ℕ → UInt8)
  | read (n : ℕ)
  | setPosition (v : ℕ)
  | clear
  | getWriteBuffers (len : ℕ) (junk : ℕ → UInt8)
  | toString
  | getReadBuffers (len : ℕ)
  | getSize
  | getPosition
  | getReadSize

/-- what a call returns; `buffers` is the return value and the bytes its `iovec`s denote, in order -/
inductive Ret where
  | unit
  | bytes (bs : List UInt8)
  | size (n : ℕ)
  | buffers (n : ℕ) (bs : List UInt8)
deriving DecidableEq, Repr

def call : Call → M Ret
  | .write buf junk => do write buf junk; pure .unit
  | .read n => do pure (.bytes (← read n))
  | .setPosition v => do setPosition v; pure .unit
  | .clear => do clear; pure .unit
  | .getWriteBuffers len junk => do pure (.size (← getWriteBuffers len junk).1)
  | .toString => do pure (.bytes (← toString))
  | .getReadBuffers len => do
    let r ← getReadBuffers len
    pure (.buffers r.1 (r.2.flatMap (iovBytes (← get).nodes)))
  | .getSize => do pure (.size (← get).size)
  | .getPosition => do pure (.size (← get).position)
  | .getReadSize => do pure (.size (← get).getReadSize)

end ByteArray

end Sylar
