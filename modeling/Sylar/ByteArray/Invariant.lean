/-
The class invariant of `ByteArray` and what each member function does under it.

`Inv` is the representation invariant: blocks of `m_baseSize` bytes, `m_capacity` their total, `m_position ≤ m_size ≤
m_capacity`, and `m_cur` the node with index `m_position / m_baseSize`, null exactly at the end of the capacity. Over
it the blocks are one flat memory (`mem`), and every node-crossing loop is a slice or a splice of that memory
(`readLoop_eq`, `writeLoop_eq`, `iovLoop_eq`, `seekLoop_eq`).

The member functions then have one specification each (`write_spec`, `read_spec`, `setPosition_spec`, ...): the
result, the new memory and the fields that moved, with `Inv` kept. Nothing above this module unfolds a loop.

- `reachable_rep_inv`: every state reached from the constructor satisfies the invariant, and no call follows a null
  node.
-/
import Mathlib.Tactic
import Sylar.Core.Splice
import Sylar.Core.Run
import Sylar.ByteArray.Model

namespace Sylar.ByteArray

open Sylar.Core

/-! ## Flat memory -/

/-- the blocks laid end to end -/
def memOf (nodes : List Node) : List UInt8 := (nodes.map Node.ptr).flatten

def mem (ba : ByteArray) : List UInt8 := memOf ba.nodes

@[simp] theorem memOf_nil : memOf [] = [] := rfl

@[simp] theorem memOf_cons (nd : Node) (rest : List Node) : memOf (nd :: rest) = nd.ptr ++ memOf rest := by
  simp [memOf]

@[simp] theorem memOf_append (a b : List Node) : memOf (a ++ b) = memOf a ++ memOf b := by
  simp [memOf]

/-- all blocks have `b` bytes -/
def Sized (b : ℕ) (nodes : List Node) : Prop := ∀ nd ∈ nodes, nd.size = b

theorem Sized.tail {b : ℕ} {nd : Node} {rest : List Node} (h : Sized b (nd :: rest)) : Sized b rest :=
  fun x hx => h x (List.mem_cons_of_mem _ hx)

theorem Sized.drop {b : ℕ} {nodes : List Node} (h : Sized b nodes) (i : ℕ) : Sized b (nodes.drop i) :=
  fun x hx => h x (List.mem_of_mem_drop hx)

theorem Sized.take {b : ℕ} {nodes : List Node} (h : Sized b nodes) (i : ℕ) : Sized b (nodes.take i) :=
  fun x hx => h x (List.mem_of_mem_take hx)

theorem Sized.append {b : ℕ} {l r : List Node} (hl : Sized b l) (hr : Sized b r) : Sized b (l ++ r) := by
  intro x hx
  rcases List.mem_append.1 hx with hx | hx
  · exact hl x hx
  · exact hr x hx

theorem memOf_length {b : ℕ} {nodes : List Node} (h : Sized b nodes) : (memOf nodes).length = b * nodes.length := by
  induction nodes with
  | nil => simp
  | cons nd rest ih =>
    have hnd : nd.ptr.length = b := h nd List.mem_cons_self
    rw [memOf_cons, List.length_append, ih h.tail, hnd, List.length_cons]
    ring

theorem memOf_drop {b : ℕ} {nodes : List Node} (h : Sized b nodes) (i : ℕ) (hi : i ≤ nodes.length) :
    memOf (nodes.drop i) = (memOf nodes).drop (b * i) := by
  conv_rhs => rw [← List.take_append_drop i nodes, memOf_append]
  have hlen : (memOf (nodes.take i)).length = b * i := by
    rw [memOf_length (h.take i), List.length_take, Nat.min_eq_left hi]
  rw [← hlen, List.drop_left]

/-! ## The loops

`b` is the block size, `npos < b` the offset in the first block; a run of `n` bytes from there ends `(npos + n) / b`
nodes further, which is one past the node it fills to its last byte. -/

section Loops

variable {b : ℕ}

theorem step_div (hb : 0 < b) {npos n : ℕ} (h : npos + n ≤ b) :
    (if b = npos + n then 1 else 0) = (npos + n) / b := by
  split_ifs with he
  · rw [← he, Nat.div_self hb]
  · rw [Nat.div_eq_of_lt (by omega)]

theorem rest_div (hb : 0 < b) {npos n : ℕ} (hn : npos < b) (h : b - npos < n) :
    (0 + (n - (b - npos))) / b + 1 = (npos + n) / b := by
  have he : npos + n = (n - (b - npos)) + b := by omega
  rw [he, Nat.add_div_right _ hb, Nat.zero_add]

/-- a slice that leaves the first block is cut at its end -/
theorem slice_cross {p r : List UInt8} {npos n : ℕ} (hp : p.length = b) (h : b - npos ≤ n) :
    (p.drop npos ++ r).take n = (p.drop npos).take (b - npos) ++ r.take (n - (b - npos)) := by
  have hl : (p.drop npos).length = b - npos := by rw [List.length_drop, hp]
  have h1 : (p.drop npos).take n = p.drop npos := List.take_of_length_le (by omega)
  have h2 : (p.drop npos).take (b - npos) = p.drop npos := List.take_of_length_le (by omega)
  rw [List.take_append, hl, h1, h2]

theorem readLoop_eq (hb : 0 < b) : ∀ (c : List Node) (npos n : ℕ), Sized b c → npos < b → c ≠ [] →
    npos + n ≤ (memOf c).length → readLoop c npos n = some (((memOf c).drop npos).take n, (npos + n) / b)
  | [], _, _, _, _, hne, _ => absurd rfl hne
  | nd :: rest, npos, n, hc, hn, _, hlen => by
    have hsz : nd.size = b := hc nd List.mem_cons_self
    have hptr : nd.ptr.length = b := hsz
    rw [memOf_cons, List.length_append] at hlen
    simp only [readLoop, hsz, memOf_cons]
    rw [List.drop_append_of_le_length (by omega)]
    by_cases hge : n ≤ b - npos
    · rw [if_pos hge, step_div hb (by omega), List.take_append_of_le_length (by rw [List.length_drop]; omega)]
    · -- the run leaves this block: the rest of it starts at offset 0 of the next one
      have hrest : rest ≠ [] := by rintro rfl; simp only [memOf_nil, List.length_nil] at hlen; omega
      rw [if_neg hge, readLoop_eq hb rest 0 _ hc.tail hb hrest (by omega), Option.map_some, List.drop_zero,
        rest_div hb hn (by omega), slice_cross hptr (by omega)]

/-- past the last block the loop follows a null pointer -/
theorem readLoop_eq_none : ∀ (c : List Node) (npos n : ℕ), Sized b c → npos ≤ b → (memOf c).length < npos + n →
    readLoop c npos n = none
  | [], _, _, _, _, _ => rfl
  | nd :: rest, npos, n, hc, hn, hlen => by
    have hsz : nd.size = b := hc nd List.mem_cons_self
    have hptr : nd.ptr.length = b := hsz
    rw [memOf_cons, List.length_append] at hlen
    simp only [readLoop, hsz]
    rw [if_neg (by omega), readLoop_eq_none rest 0 _ hc.tail (Nat.zero_le b) (by omega), Option.map_none]

theorem writeLoop_eq (hb : 0 < b) : ∀ (c : List Node) (npos : ℕ) (buf : List UInt8), Sized b c → npos < b → c ≠ [] →
    npos + buf.length ≤ (memOf c).length →
    ∃ c', writeLoop c npos buf = some (c', (npos + buf.length) / b) ∧ memOf c' = splice (memOf c) npos buf ∧
      Sized b c' ∧ c'.length = c.length
  | [], _, _, _, _, hne, _ => absurd rfl hne
  | nd :: rest, npos, buf, hc, hn, _, hlen => by
    have hsz : nd.size = b := hc nd List.mem_cons_self
    have hptr : nd.ptr.length = b := hsz
    -- a store inside the block keeps its size
    have hcons : ∀ (bs : List UInt8) (r : List Node), npos + bs.length ≤ b → Sized b r →
        Sized b (nd.store npos bs :: r) := by
      intro bs r h hr x hx
      rcases List.mem_cons.1 hx with rfl | hx
      · rw [Node.store, Node.size, splice_length_of_le _ _ _ (by omega), hptr]
      · exact hr x hx
    rw [memOf_cons, List.length_append] at hlen
    simp only [writeLoop, hsz, memOf_cons]
    by_cases hge : buf.length ≤ b - npos
    · rw [if_pos hge, step_div hb (by omega)]
      refine ⟨_, rfl, ?_, hcons _ _ (by omega) hc.tail, rfl⟩
      rw [memOf_cons, splice_append_left _ _ _ _ (by omega), Node.store]
    · have hrest : rest ≠ [] := by rintro rfl; simp only [memOf_nil, List.length_nil] at hlen; omega
      obtain ⟨c', h1, h2, h3, h4⟩ := writeLoop_eq hb rest 0 (buf.drop (b - npos)) hc.tail hb hrest
        (by rw [List.length_drop]; omega)
      rw [if_neg hge, h1, Option.map_some, List.length_drop, rest_div hb hn (by omega)]
      refine ⟨_, rfl, ?_, hcons _ _ (by rw [List.length_take]; omega) h3, by simp only [List.length_cons, h4]⟩
      rw [memOf_cons, h2, splice_append_cross _ _ _ _ (by omega) (by omega), hptr, Node.store]

theorem seekLoop_eq (hb : 0 < b) : ∀ (c : List Node) (v : ℕ), Sized b c → c ≠ [] → v ≤ (memOf c).length →
    seekLoop c v = some (v / b)
  | [], _, _, hne, _ => absurd rfl hne
  | nd :: rest, v, hc, _, hlen => by
    have hsz : nd.size = b := hc nd List.mem_cons_self
    have hptr : nd.ptr.length = b := hsz
    rw [memOf_cons, List.length_append, hptr] at hlen
    simp only [seekLoop, hsz]
    by_cases hgt : v > b
    · have hrest : rest ≠ [] := by rintro rfl; simp only [memOf_nil, List.length_nil] at hlen; omega
      rw [if_pos hgt, seekLoop_eq hb rest (v - b) hc.tail hrest (by omega), Option.map_some]
      have he : v = (v - b) + b := by omega
      conv_rhs => rw [he, Nat.add_div_right _ hb]
    · rw [if_neg hgt]
      have h : (if b = 0 + v then 1 else 0) = (0 + v) / b := step_div hb (by omega)
      simp only [Nat.zero_add] at h
      rw [← h]
      simp only [eq_comm]

/-- the entries cover `len` bytes from `npos` on and denote exactly the slice of the memory -/
theorem iovLoop_eq (hb : 0 < b) (nodes : List Node) : ∀ (c : List Node) (i npos len : ℕ), Sized b c → npos < b →
    c ≠ [] → nodes.drop i = c → npos + len ≤ (memOf c).length →
    ∃ iovs, iovLoop c i npos len = some iovs ∧ iovs.flatMap (iovBytes nodes) = ((memOf c).drop npos).take len ∧
      (iovs.map Iovec.len).sum = len
  | [], _, _, _, _, _, hne, _, _ => absurd rfl hne
  | nd :: rest, i, npos, len, hc, hn, _, hi, hlen => by
    have hsz : nd.size = b := hc nd List.mem_cons_self
    have hptr : nd.ptr.length = b := hsz
    have hget : nodes[i]? = some nd := by
      have : (nodes.drop i)[0]? = nodes[i + 0]? := List.getElem?_drop
      rw [hi] at this
      simpa using this.symm
    have hnext : nodes.drop (i + 1) = rest := by
      rw [← List.drop_drop, hi, List.drop_one, List.tail_cons]
    rw [memOf_cons, List.length_append] at hlen
    simp only [iovLoop, hsz, memOf_cons]
    rw [List.drop_append_of_le_length (by omega)]
    by_cases hge : len ≤ b - npos
    · rw [if_pos hge]
      refine ⟨_, rfl, ?_, by simp⟩
      rw [List.take_append_of_le_length (by rw [List.length_drop]; omega)]
      simp [iovBytes, hget]
    · have hrest : rest ≠ [] := by rintro rfl; simp only [memOf_nil, List.length_nil] at hlen; omega
      obtain ⟨iovs, h1, h2, h3⟩ := iovLoop_eq hb nodes rest (i + 1) 0 (len - (b - npos)) hc.tail hb hrest hnext (by omega)
      rw [if_neg hge, h1, Option.map_some]
      refine ⟨_, rfl, ?_, ?_⟩
      · rw [List.flatMap_cons, h2, List.drop_zero, slice_cross hptr (by omega), iovBytes, hget]
      · rw [List.map_cons, List.sum_cons, h3]; show b - npos + _ = _; omega

end Loops

/-! ## The representation invariant -/

structure Inv (ba : ByteArray) : Prop where
  base_pos : 0 < ba.baseSize
  sized : Sized ba.baseSize ba.nodes
  root : ba.nodes ≠ []
  cap : ba.capacity = ba.baseSize * ba.nodes.length
  pos_le : ba.position ≤ ba.size
  size_le : ba.size ≤ ba.capacity
  /-- `m_cur` is the node the cursor stands in, null past the last one -/
  cur_eq : ba.cur = ptrAt ba.nodes (ba.position / ba.baseSize)

theorem inv_new (base : ℕ) (junk : ℕ → UInt8) (hb : 0 < base) : Inv (new base junk) where
  base_pos := hb
  sized := by intro nd hnd; simp only [new, List.mem_singleton] at hnd; subst hnd; simp [new, Node.alloc, Node.size]
  root := by simp [new]
  cap := by simp [new]
  pos_le := le_rfl
  size_le := Nat.zero_le _
  cur_eq := by simp [new, ptrAt]

namespace Inv

variable {ba : ByteArray}

theorem mem_length (h : Inv ba) : ba.mem.length = ba.capacity := by
  rw [mem, memOf_length h.sized, h.cap]

theorem pos_le_cap (h : Inv ba) : ba.position ≤ ba.capacity := h.pos_le.trans h.size_le

theorem div_le (h : Inv ba) : ba.position / ba.baseSize ≤ ba.nodes.length := by
  have := h.pos_le_cap
  rw [h.cap] at this
  exact Nat.div_le_of_le_mul this

theorem curIdx_eq (h : Inv ba) : ba.curIdx = ba.position / ba.baseSize := by
  have := h.div_le
  rw [curIdx, h.cur_eq, ptrAt]
  split_ifs with hi
  · rfl
  · simp only [Option.getD_none]; omega

theorem chain_sized (h : Inv ba) : Sized ba.baseSize ba.chain := h.sized.drop _

theorem memOf_chain (h : Inv ba) : memOf ba.chain = ba.mem.drop (ba.baseSize * (ba.position / ba.baseSize)) := by
  rw [chain, h.curIdx_eq, memOf_drop h.sized _ h.div_le, mem]

theorem mod_lt (h : Inv ba) : ba.position % ba.baseSize < ba.baseSize := Nat.mod_lt _ h.base_pos

/-- the memory from the cursor on, seen from the current node -/
theorem drop_chain (h : Inv ba) : (memOf ba.chain).drop (ba.position % ba.baseSize) = ba.mem.drop ba.position := by
  rw [h.memOf_chain, List.drop_drop, Nat.div_add_mod]

theorem chain_length (h : Inv ba) :
    ba.position % ba.baseSize + (ba.capacity - ba.position) = (memOf ba.chain).length := by
  have := h.pos_le_cap
  have hd := Nat.div_add_mod ba.position ba.baseSize
  rw [h.memOf_chain, List.length_drop, h.mem_length]
  omega

theorem chain_ne_nil (h : Inv ba) (hlt : ba.position < ba.capacity) : ba.chain ≠ [] := by
  intro hnil
  have := h.chain_length
  rw [hnil, memOf_nil, List.length_nil] at this
  omega

theorem chain_eq_nil_iff (h : Inv ba) : ba.chain = [] ↔ ba.position = ba.capacity := by
  constructor
  · intro hnil
    by_contra hne
    exact h.chain_ne_nil (lt_of_le_of_ne h.pos_le_cap hne) hnil
  · intro hend
    have hidx : ba.curIdx = ba.nodes.length := by
      rw [h.curIdx_eq, hend, h.cap, Nat.mul_div_cancel_left _ h.base_pos]
    rw [chain, hidx, List.drop_length]

/-- `m_cur` in the words of its users: null exactly at the end of the capacity -/
theorem cur_none_iff (h : Inv ba) : ba.cur = none ↔ ba.position = ba.capacity := by
  have hle := h.pos_le_cap
  have hd := Nat.div_add_mod ba.position ba.baseSize
  have hm := h.mod_lt
  rw [h.cur_eq, ptrAt]
  split_ifs with hi
  · have : ba.baseSize * (ba.position / ba.baseSize) + ba.baseSize ≤ ba.capacity := by
      rw [h.cap, ← Nat.mul_succ]; exact Nat.mul_le_mul_left _ hi
    simp only [false_iff]; omega
  · have : ba.baseSize * ba.nodes.length ≤ ba.baseSize * (ba.position / ba.baseSize) :=
      Nat.mul_le_mul_left _ (by omega)
    rw [← h.cap] at this
    simp only [true_iff]; omega

end Inv

/-! ## Growing -/

theorem alloc_size (junk : ℕ → UInt8) (a s : ℕ) : (Node.alloc junk a s).size = s := by
  simp [Node.alloc, Node.size]

theorem ceil_mul_ge {n b : ℕ} (hb : 0 < b) : n ≤ (n + b - 1) / b * b := by
  have h := Nat.div_add_mod (n + b - 1) b
  have := Nat.mod_lt (n + b - 1) hb
  rw [mul_comm] at h
  omega

/-- what `addCapacity(n)` leaves alone, and the room it makes -/
structure Grown (n : ℕ) (ba ba' : ByteArray) : Prop where
  inv : Inv ba'
  base : ba'.baseSize = ba.baseSize
  pos : ba'.position = ba.position
  size : ba'.size = ba.size
  endian : ba'.endian = ba.endian
  fresh : ∃ f, ba'.mem = ba.mem ++ f
  room : ba.position + n ≤ ba'.capacity

theorem addCapacity_grown {ba : ByteArray} (h : Inv ba) (n : ℕ) (junk : ℕ → UInt8) :
    Grown n ba (ba.addCapacity n junk) := by
  have hpos := h.pos_le_cap
  have hsame : ba.position + n ≤ ba.capacity → Grown n ba ba := fun hr =>
    ⟨h, rfl, rfl, rfl, rfl, ⟨[], by simp⟩, hr⟩
  by_cases h0 : n = 0
  · rw [addCapacity, if_pos h0]; exact hsame (by omega)
  by_cases hcap : ba.getCapacity ≥ n
  · rw [addCapacity, if_neg h0]
    simp only [hcap, if_true]
    simp only [getCapacity] at hcap
    exact hsame (by omega)
  rw [addCapacity, if_neg h0]
  simp only [hcap, if_false]
  have hgc : ba.getCapacity = ba.capacity - ba.position := rfl
  set count := (n - ba.getCapacity + ba.baseSize - 1) / ba.baseSize
  set fresh := (List.range count).map fun k => Node.alloc junk (ba.capacity + k * ba.baseSize) ba.baseSize
  have hfresh : Sized ba.baseSize fresh := by
    intro nd hnd
    obtain ⟨k, -, rfl⟩ := List.mem_map.1 hnd
    exact alloc_size _ _ _
  have hlen : fresh.length = count := by simp [fresh]
  have hroom : n - ba.getCapacity ≤ count * ba.baseSize := ceil_mul_ge h.base_pos
  refine ⟨⟨h.base_pos, h.sized.append hfresh, by simp [h.root], ?_, h.pos_le, ?_, ?_⟩, rfl, rfl, rfl, rfl,
    ⟨memOf fresh, by simp only [mem, memOf_append]⟩, by show _ ≤ ba.capacity + count * ba.baseSize; omega⟩
  · show ba.capacity + count * ba.baseSize = ba.baseSize * (ba.nodes ++ fresh).length
    rw [h.cap, List.length_append, hlen]; ring
  · exact h.size_le.trans (Nat.le_add_right _ _)
  · -- the cursor keeps its node; if it had none, its node is the first fresh one
    have hcur := h.cur_none_iff
    show (if ba.getCapacity = 0 then _ else _) = _
    split_ifs with hz
    · have hend : ba.position / ba.baseSize = ba.nodes.length := by
        have : ba.position = ba.baseSize * ba.nodes.length := by rw [← h.cap]; omega
        rw [this, Nat.mul_div_cancel_left _ h.base_pos]
      show ptrAt _ ba.nodes.length = ptrAt _ (ba.position / ba.baseSize)
      rw [hend]
    · have hne : ba.cur ≠ none := fun he => hz (by rw [hgc, hcur.1 he, Nat.sub_self])
      show ba.cur = ptrAt (ba.nodes ++ fresh) (ba.position / ba.baseSize)
      rw [h.cur_eq, ptrAt] at hne ⊢
      split_ifs at hne ⊢ with hi
      · rw [ptrAt, if_pos (by rw [List.length_append]; omega)]
      · exact absurd rfl hne

theorem ceil_mul_lt {n b : ℕ} (hn : 0 < n) : (n + b - 1) / b * b < n + b := by
  have := Nat.div_mul_le_self (n + b - 1) b
  omega

/-- growing stops at the first block that is enough -/
theorem addCapacity_capacity {ba : ByteArray} (h : Inv ba) (n : ℕ) (junk : ℕ → UInt8) :
    ba.capacity ≤ (ba.addCapacity n junk).capacity ∧
      ((ba.addCapacity n junk).capacity = ba.capacity ∨
        (ba.addCapacity n junk).capacity < ba.position + n + ba.baseSize) := by
  have hpos := h.pos_le_cap
  have hgc : ba.getCapacity = ba.capacity - ba.position := rfl
  rw [addCapacity]
  split_ifs with h0
  · exact ⟨le_rfl, .inl rfl⟩
  by_cases hcap : ba.getCapacity ≥ n
  · simp only [hcap, if_true]
    exact ⟨le_rfl, .inl trivial⟩
  · simp only [hcap, if_false]
    have hlt := ceil_mul_lt (n := n - ba.getCapacity) (b := ba.baseSize) (by omega)
    exact ⟨Nat.le_add_right _ _, .inr (by omega)⟩

/-! ## One specification per member function -/

/-- the used part of the memory -/
def contents (ba : ByteArray) : List UInt8 := ba.mem.take ba.size

theorem Inv.contents_length {ba : ByteArray} (h : Inv ba) : ba.contents.length = ba.size := by
  rw [contents, List.length_take, h.mem_length, Nat.min_eq_left h.size_le]

/-- a slice of the readable bytes is a slice of the memory -/
theorem Inv.slice_contents {ba : ByteArray} (h : Inv ba) {n : ℕ} (hn : n ≤ ba.getReadSize) :
    (ba.mem.drop ba.position).take n = (ba.contents.drop ba.position).take n := by
  have := h.pos_le
  simp only [getReadSize] at hn
  rw [contents, List.drop_take, List.take_take, Nat.min_eq_left (by omega)]

/-- what stays when only the cursor and the data move -/
structure Frame (ba ba' : ByteArray) : Prop where
  base : ba'.baseSize = ba.baseSize
  endian : ba'.endian = ba.endian

/-- the node a run of `n` bytes from the cursor ends in -/
theorem Inv.curIdx_add {ba : ByteArray} (h : Inv ba) (n : ℕ) :
    ba.curIdx + (ba.position % ba.baseSize + n) / ba.baseSize = (ba.position + n) / ba.baseSize := by
  have hd : ba.position + n = ba.baseSize * (ba.position / ba.baseSize) + (ba.position % ba.baseSize + n) := by
    have := Nat.div_add_mod ba.position ba.baseSize
    omega
  rw [h.curIdx_eq, hd, Nat.mul_add_div h.base_pos]

/-- **`write`** never fails: it splices `buf` into the contents at the cursor, whatever fresh memory held. -/
theorem write_spec {ba : ByteArray} (h : Inv ba) (buf : List UInt8) (junk : ℕ → UInt8) :
    ∃ ba', write buf junk ba = (.ok (), ba') ∧ Inv ba' ∧ Frame ba ba' ∧ ba'.position = ba.position + buf.length ∧
      ba'.contents = splice ba.contents ba.position buf := by
  by_cases h0 : buf.length = 0
  · have hnil : buf = [] := List.eq_nil_of_length_eq_zero h0
    subst hnil
    exact ⟨ba, by simp [write], h, ⟨rfl, rfl⟩, by simp, by simp⟩
  obtain ⟨g, hbase, hpos, hsize, hend, ⟨f, hmem⟩, hroom⟩ := addCapacity_grown h buf.length junk
  rw [write, if_neg h0]
  simp only
  generalize ba.addCapacity buf.length junk = b1 at *
  obtain ⟨c, h1, h2, h3, h4⟩ := writeLoop_eq g.base_pos b1.chain (b1.position % b1.baseSize) buf g.chain_sized g.mod_lt
    (g.chain_ne_nil (by omega)) (by rw [← g.chain_length]; omega)
  rw [h1]
  have hle := g.pos_le
  have hidx : b1.curIdx ≤ b1.nodes.length := by rw [g.curIdx_eq]; exact g.div_le
  have hlen : (b1.nodes.take b1.curIdx ++ c).length = b1.nodes.length := by
    rw [List.length_append, h4, chain, List.length_take, List.length_drop]; omega
  -- the chain before `m_cur` is untouched, so the whole memory is spliced at the cursor
  have hnew : memOf (b1.nodes.take b1.curIdx ++ c) = splice b1.mem b1.position buf := by
    have hsplit : b1.mem = memOf (b1.nodes.take b1.curIdx) ++ memOf b1.chain := by
      rw [mem, chain, ← memOf_append, List.take_append_drop]
    have hpre : (memOf (b1.nodes.take b1.curIdx)).length = b1.baseSize * (b1.position / b1.baseSize) := by
      rw [memOf_length (g.sized.take _), List.length_take, Nat.min_eq_left hidx, g.curIdx_eq]
    have hp : b1.position = (memOf (b1.nodes.take b1.curIdx)).length + b1.position % b1.baseSize := by
      rw [hpre, Nat.div_add_mod]
    rw [memOf_append, h2, hsplit]
    conv_rhs => rw [hp, splice_append_right]
  have hsz : (if b1.position + buf.length > b1.size then b1.position + buf.length else b1.size) =
      max b1.size (b1.position + buf.length) := by
    split_ifs <;> omega
  refine ⟨_, rfl, ⟨g.base_pos, (g.sized.take _).append h3, ?_, ?_, ?_, ?_, ?_⟩, ⟨hbase, hend⟩, ?_, ?_⟩
  · exact List.ne_nil_of_length_pos (by rw [hlen]; exact List.length_pos_of_ne_nil g.root)
  · simp only [hlen]; exact g.cap
  · simp only [hsz]; exact le_max_right _ _
  · simp only [hsz]; have := g.size_le; omega
  · simp only [g.curIdx_add]
  · simp only [hpos]
  · have hcont : b1.mem.take b1.size = ba.contents := by
      rw [hmem, hsize, List.take_append_of_le_length (by rw [h.mem_length]; exact h.size_le), contents]
    show (memOf _).take (ite _ _ _) = _
    rw [hnew, hsz, take_splice _ _ _ _ hle (by rw [g.mem_length]; omega), hcont, hpos]

/-- a write ends at the end of the capacity when it fills a block to its last byte and no block is behind it -/
theorem write_full_iff {ba ba' : ByteArray} (h : Inv ba) {buf : List UInt8} {junk : ℕ → UInt8}
    (hw : write buf junk ba = (.ok (), ba')) :
    ba'.position = ba'.capacity ↔
      ba.capacity ≤ ba.position + buf.length ∧ ba.baseSize ∣ ba.position + buf.length := by
  obtain ⟨b1, h1, hinv, hframe, hpos, -⟩ := write_spec h buf junk
  obtain rfl : ba' = b1 := (Prod.mk.inj (hw.symm.trans h1)).2
  have hcap : ba.capacity ≤ ba'.capacity ∧
      (ba'.capacity = ba.capacity ∨ ba'.capacity < ba.position + buf.length + ba.baseSize) := by
    by_cases h0 : buf.length = 0
    · rw [write, if_pos h0, Prod.mk.injEq] at hw
      exact hw.2 ▸ ⟨le_rfl, .inl rfl⟩
    · have hgrow := addCapacity_capacity h buf.length junk
      rw [write, if_neg h0] at hw
      dsimp only at hw
      split at hw
      · cases hw
      · rw [Prod.mk.injEq] at hw
        exact hw.2 ▸ hgrow
  have hdvd : ba.baseSize ∣ ba'.capacity := by rw [hinv.cap, hframe.base]; exact dvd_mul_right _ _
  have hle := hinv.pos_le_cap
  have hb := h.base_pos
  rw [hpos] at hle ⊢
  constructor
  · intro he
    exact ⟨he ▸ hcap.1, he ▸ hdvd⟩
  · rintro ⟨hge, hdvd'⟩
    rcases hcap.2 with heq | hlt
    · omega
    · -- two multiples of the block size, less than a block apart
      have hgap := Nat.eq_zero_of_dvd_of_lt (Nat.dvd_sub hdvd hdvd') (by omega)
      omega

/-- **`read(n)`** with enough bytes: the slice at the cursor, which moves past it. -/
theorem read_spec {ba : ByteArray} (h : Inv ba) {n : ℕ} (h1 : 1 ≤ n) (hn : n ≤ ba.getReadSize) :
    ∃ ba', read n ba = (.ok ((ba.contents.drop ba.position).take n), ba') ∧ Inv ba' ∧ Frame ba ba' ∧
      ba'.position = ba.position + n ∧ ba'.contents = ba.contents := by
  have hsz := h.size_le
  have hrs : ba.getReadSize = ba.size - ba.position := rfl
  have hne := h.chain_ne_nil (by omega)
  rw [read, if_neg (by omega), if_neg hne, if_neg (by omega),
    readLoop_eq h.base_pos ba.chain _ n h.chain_sized h.mod_lt hne (by rw [← h.chain_length]; omega), h.drop_chain,
    h.slice_contents hn]
  refine ⟨_, rfl, ⟨h.base_pos, h.sized, h.root, h.cap, ?_, hsz, ?_⟩, ⟨rfl, rfl⟩, rfl, rfl⟩
  · show ba.position + n ≤ ba.size
    omega
  · simp only [h.curIdx_add]

/-- **`read(n)`** without: it throws and changes nothing. -/
theorem read_throws {ba : ByteArray} {n : ℕ} (hn : ba.getReadSize < n) :
    read n ba = (.error (.outOfRange "not enough len"), ba) := by
  rw [read, if_pos hn]

/-- **`read(0)`** reads `m_cur->size`, and there is no node at the end of the capacity. -/
theorem read_zero {ba : ByteArray} (h : Inv ba) :
    read 0 ba = if ba.position = ba.capacity then (.error .nullNode, ba) else (.ok [], ba) := by
  rw [read, if_neg (Nat.not_lt_zero _)]
  simp only [h.chain_eq_nil_iff, if_true]

theorem toString_spec {ba : ByteArray} (h : Inv ba) : toString ba = (.ok (ba.contents.drop ba.position), ba) := by
  have hsz := h.size_le
  have hp := h.pos_le
  have hrs : ba.getReadSize = ba.size - ba.position := rfl
  have hall : (ba.contents.drop ba.position).length = ba.getReadSize := by
    rw [List.length_drop, h.contents_length, getReadSize]
  rw [toString]
  split_ifs with h0
  · rw [List.eq_nil_of_length_eq_zero (hall.trans h0)]
  · have hne := h.chain_ne_nil (by omega)
    have hus : usub ba.size ba.position = ba.getReadSize := by rw [usub, if_pos hp, hrs]
    rw [readAt, hus, if_neg (by omega), if_neg hne, if_neg h0,
      readLoop_eq h.base_pos ba.chain _ _ h.chain_sized h.mod_lt hne (by rw [← h.chain_length]; omega), h.drop_chain,
      h.slice_contents le_rfl, List.take_of_length_le (by omega)]

theorem setPosition_spec {ba : ByteArray} (h : Inv ba) {v : ℕ} (hv : v ≤ ba.capacity) :
    ∃ ba', setPosition v ba = (.ok (), ba') ∧ Inv ba' ∧ Frame ba ba' ∧ ba'.position = v ∧
      ba'.size = max ba.size v ∧ ba'.mem = ba.mem := by
  have hsz : (if v > ba.size then v else ba.size) = max ba.size v := by split_ifs <;> omega
  have hlen : v ≤ (memOf ba.nodes).length := by rw [← mem, h.mem_length]; exact hv
  rw [setPosition, if_neg (by omega)]
  simp only [seekLoop_eq h.base_pos ba.nodes v h.sized h.root hlen]
  refine ⟨_, rfl, ⟨h.base_pos, h.sized, h.root, h.cap, ?_, ?_, rfl⟩, ⟨rfl, rfl⟩, rfl, hsz, rfl⟩
  · simp only [hsz]; exact le_max_right _ _
  · simp only [hsz]; exact max_le h.size_le hv

theorem setPosition_throws {ba : ByteArray} {v : ℕ} (hv : ba.capacity < v) :
    setPosition v ba = (.error (.outOfRange "set_position out of range"), ba) := by
  rw [setPosition, if_pos hv]

theorem clear_spec {ba : ByteArray} (h : Inv ba) :
    ∃ ba', clear ba = (.ok (), ba') ∧ Inv ba' ∧ Frame ba ba' ∧ ba'.position = 0 ∧ ba'.contents = [] := by
  have hlen : (ba.nodes.take 1).length = 1 := by
    have := List.length_pos_of_ne_nil h.root
    rw [List.length_take]; omega
  refine ⟨_, rfl, ⟨h.base_pos, h.sized.take 1, ?_, ?_, le_rfl, Nat.zero_le _, ?_⟩, ⟨rfl, rfl⟩, rfl, rfl⟩
  · exact List.ne_nil_of_length_pos (by rw [hlen]; omega)
  · simp only [hlen, mul_one]
  · simp only [ptrAt, hlen, Nat.zero_div]; rfl

/-- **`getReadBuffers(len)`**: the entries denote the first `min len readSize` readable bytes. -/
theorem getReadBuffers_spec {ba : ByteArray} (h : Inv ba) (len : ℕ) :
    ∃ iovs, getReadBuffers len ba = (.ok (min len ba.getReadSize, iovs), ba) ∧
      iovs.flatMap (iovBytes ba.nodes) = (ba.contents.drop ba.position).take (min len ba.getReadSize) := by
  have hsz := h.size_le
  have hrs : ba.getReadSize = ba.size - ba.position := rfl
  have hmin : (if len > ba.getReadSize then ba.getReadSize else len) = min len ba.getReadSize := by
    split_ifs <;> omega
  simp only [getReadBuffers, hmin]
  by_cases h0 : min len ba.getReadSize = 0
  · rw [if_pos h0, h0]
    exact ⟨[], rfl, by simp⟩
  · obtain ⟨iovs, h1, h2, -⟩ := iovLoop_eq h.base_pos ba.nodes ba.chain ba.curIdx (ba.position % ba.baseSize)
      (min len ba.getReadSize) h.chain_sized h.mod_lt (h.chain_ne_nil (by omega)) rfl
      (by rw [← h.chain_length]; omega)
    rw [if_neg h0, h1]
    exact ⟨iovs, rfl, by rw [h2, h.drop_chain, h.slice_contents (min_le_right _ _)]⟩

/-- **`getWriteBuffers(len)`** makes room and hands out regions of `len` bytes in all; nothing readable changes. -/
theorem getWriteBuffers_spec {ba : ByteArray} (h : Inv ba) (len : ℕ) (junk : ℕ → UInt8) :
    ∃ iovs ba', getWriteBuffers len junk ba = (.ok (len, iovs), ba') ∧ Inv ba' ∧ Frame ba ba' ∧
      ba'.position = ba.position ∧ ba'.contents = ba.contents ∧ (iovs.map Iovec.len).sum = len := by
  by_cases h0 : len = 0
  · subst h0
    exact ⟨[], ba, by simp [getWriteBuffers], h, ⟨rfl, rfl⟩, rfl, rfl, rfl⟩
  obtain ⟨g, hbase, hpos, hsize, hend, ⟨f, hmem⟩, hroom⟩ := addCapacity_grown h len junk
  rw [getWriteBuffers, if_neg h0]
  simp only
  generalize ba.addCapacity len junk = b1 at *
  obtain ⟨iovs, h1, -, h3⟩ := iovLoop_eq g.base_pos b1.nodes b1.chain b1.curIdx (b1.position % b1.baseSize) len
    g.chain_sized g.mod_lt (g.chain_ne_nil (by omega)) rfl (by rw [← g.chain_length]; omega)
  rw [h1]
  refine ⟨iovs, b1, rfl, g, ⟨hbase, hend⟩, hpos, ?_, h3⟩
  rw [contents, contents, hmem, hsize, List.take_append_of_le_length (by rw [h.mem_length]; exact h.size_le)]

/-! ## Every reachable state -/

/-- the calls the interface supports: `read(0)` at the end of the capacity is not one of them -/
def Call.Ok : Call → Prop
  | .read n => 1 ≤ n
  | _ => True

theorem call_inv {ba : ByteArray} (h : Inv ba) (c : Call) (hc : c.Ok) :
    Inv (call c ba).2 ∧ (call c ba).2.baseSize = ba.baseSize ∧ (call c ba).1 ≠ .error .nullNode := by
  cases c with
  | write buf junk =>
    obtain ⟨ba', h1, h2, h3, -⟩ := write_spec h buf junk
    simp only [call]
    rw [bind_ok h1]
    exact ⟨h2, h3.base, by simp⟩
  | read n =>
    simp only [call]
    by_cases hn : n ≤ ba.getReadSize
    · obtain ⟨ba', h1, h2, h3, -⟩ := read_spec h hc hn
      rw [bind_ok h1]
      exact ⟨h2, h3.base, by simp⟩
    · rw [bind_error (read_throws (by omega))]
      exact ⟨h, rfl, by simp⟩
  | setPosition v =>
    simp only [call]
    by_cases hv : v ≤ ba.capacity
    · obtain ⟨ba', h1, h2, h3, -⟩ := setPosition_spec h hv
      rw [bind_ok h1]
      exact ⟨h2, h3.base, by simp⟩
    · rw [bind_error (setPosition_throws (by omega))]
      exact ⟨h, rfl, by simp⟩
  | clear =>
    obtain ⟨ba', h1, h2, h3, -⟩ := clear_spec h
    simp only [call]
    rw [bind_ok h1]
    exact ⟨h2, h3.base, by simp⟩
  | getWriteBuffers len junk =>
    obtain ⟨iovs, ba', h1, h2, h3, -⟩ := getWriteBuffers_spec h len junk
    simp only [call]
    rw [bind_ok h1]
    exact ⟨h2, h3.base, by simp⟩
  | toString =>
    simp only [call]
    rw [bind_ok (toString_spec h)]
    exact ⟨h, rfl, by simp⟩
  | getReadBuffers len =>
    obtain ⟨iovs, h1, -⟩ := getReadBuffers_spec h len
    simp only [call]
    rw [bind_ok h1, bind_ok (get_apply ba)]
    exact ⟨h, rfl, by simp⟩
  | getSize | getPosition | getReadSize =>
    simp only [call]
    rw [bind_ok (get_apply ba)]
    exact ⟨h, rfl, by simp⟩

/-- a whole run of calls: what they return, and the array they leave -/
def calls (ba : ByteArray) (cs : List Call) : List (Except Err Ret) × ByteArray := runOut (fun b c => call c b) ba cs

theorem calls_inv {ba : ByteArray} (h : Inv ba) (cs : List Call) (hcs : ∀ c ∈ cs, c.Ok) :
    Inv (calls ba cs).2 ∧ (calls ba cs).2.baseSize = ba.baseSize ∧ ∀ r ∈ (calls ba cs).1, r ≠ .error .nullNode := by
  induction cs generalizing ba with
  | nil => exact ⟨h, rfl, by simp [calls, runOut]⟩
  | cons c cs ih =>
    obtain ⟨h1, h2, h3⟩ := call_inv h c (hcs c List.mem_cons_self)
    obtain ⟨h4, h5, h6⟩ := ih h1 fun c' hc' => hcs c' (List.mem_cons_of_mem c hc')
    refine ⟨h4, h5.trans h2, fun r hr => ?_⟩
    rcases List.mem_cons.1 hr with rfl | hr
    · exact h3
    · exact h6 r hr

/-- **Representation invariant.** After any calls on a fresh array (seeks anywhere, failing ones included): all blocks
have the base size, the capacity is their total, the cursor is inside the used size, `m_cur` is the node the cursor
stands in and null exactly at the end of the capacity, and no call has followed a null node. -/
theorem reachable_rep_inv (base : ℕ) (hb : 1 ≤ base) (junk : ℕ → UInt8) (cs : List Call) (hcs : ∀ c ∈ cs, c.Ok) :
    let ba := (calls (new base junk) cs).2
    ba.baseSize = base ∧ (∀ nd ∈ ba.nodes, nd.size = ba.baseSize) ∧ ba.capacity = ba.baseSize * ba.nodes.length ∧
      ba.position ≤ ba.size ∧ ba.size ≤ ba.capacity ∧
      (∀ i, ba.cur = some i → i = ba.position / ba.baseSize ∧ i < ba.nodes.length) ∧
      (ba.cur = none ↔ ba.position = ba.capacity) ∧
      ∀ r ∈ (calls (new base junk) cs).1, r ≠ .error .nullNode := by
  obtain ⟨h, hbase, hnull⟩ := calls_inv (inv_new base junk hb) cs hcs
  refine ⟨hbase, h.sized, h.cap, h.pos_le, h.size_le, fun i hi => ?_, h.cur_none_iff, hnull⟩
  rw [h.cur_eq, ptrAt] at hi
  split_ifs at hi with hlt
  cases hi
  exact ⟨rfl, hlt⟩

/-- blocks of two bytes: three bytes written, a seek into the middle, a read over the border -/
theorem reachable_rep_inv_two :
    let cs : List Call := [.write [1, 2, 3] fun _ => 0, .setPosition 1, .read 2]
    (∀ c ∈ cs, c.Ok) ∧ (calls (new 2 fun _ => 0) cs).2.cur = some 1 ∧
      (calls (new 2 fun _ => 0) cs).2.position ≤ (calls (new 2 fun _ => 0) cs).2.size := by
  intro cs
  have hcs : ∀ c ∈ cs, c.Ok := by simp [cs, Call.Ok]
  exact ⟨hcs, rfl, (reachable_rep_inv 2 (by decide) (fun _ => 0) cs hcs).2.2.2.1⟩

end Sylar.ByteArray
