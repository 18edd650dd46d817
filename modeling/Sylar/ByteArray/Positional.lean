/-
The overloads that take a position: `read(buf, size, position)` and `getReadBuffers(buffers, len, position)`.

Both are meant to look at the bytes from `position` on without moving the cursor. The read takes the offset in a block
from `position` and the block itself from `m_cur`; its bound is `m_size - position` in `size_t`. The buffers are those
from `m_position` on, whatever `position` is.

- `positional_read_iff`: exactly when the read agrees with a seek and a read.
- `positional_buffers_iff`: exactly when the buffers are those of `position`; at `m_position` the two overloads agree.
-/
import Mathlib.Tactic
import Sylar.Core.Splice
import Sylar.ByteArray.Model
import Sylar.ByteArray.Invariant
import Sylar.ByteArray.Scatter

namespace Sylar.ByteArray

open Sylar.Core

/-! ## Reading at a position -/

/-- the address the read starts from: the offset of `position` in the block of the cursor -/
def readFrom (ba : ByteArray) (position : ℕ) : ℕ := ba.baseSize * (ba.position / ba.baseSize) + position % ba.baseSize

theorem readFrom_of_div_eq {ba : ByteArray} {p : ℕ} (h : p / ba.baseSize = ba.position / ba.baseSize) :
    ba.readFrom p = p := by
  rw [readFrom, ← h, Nat.div_add_mod]

theorem Inv.chain_length_eq {ba : ByteArray} (h : Inv ba) :
    (memOf ba.chain).length = ba.capacity - ba.baseSize * (ba.position / ba.baseSize) := by
  rw [h.memOf_chain, List.length_drop, h.mem_length]

/-- what the positional read does: it throws past `m_size - position`, follows a null node past the capacity, and
returns the bytes of the memory in between -/
theorem readAt_cases {ba : ByteArray} (h : Inv ba) {n : ℕ} (hn : 1 ≤ n) (p : ℕ) :
    (usub ba.size p < n ∧ readAt n p ba = (.error (.outOfRange "not enough len"), ba)) ∨
      (n ≤ usub ba.size p ∧ ba.capacity < ba.readFrom p + n ∧ readAt n p ba = (.error .nullNode, ba)) ∨
      (n ≤ usub ba.size p ∧ ba.readFrom p + n ≤ ba.capacity ∧
        readAt n p ba = (.ok ((ba.mem.drop (ba.readFrom p)).take n), ba)) := by
  have hmod : p % ba.baseSize < ba.baseSize := Nat.mod_lt _ h.base_pos
  have hlen := h.chain_length_eq
  have hbase : ba.baseSize * (ba.position / ba.baseSize) ≤ ba.capacity :=
    (Nat.mul_div_le _ _).trans h.pos_le_cap
  have hfrom : ba.readFrom p = ba.baseSize * (ba.position / ba.baseSize) + p % ba.baseSize := rfl
  rw [readAt]
  by_cases hbound : usub ba.size p < n
  · exact .inl ⟨hbound, if_pos hbound⟩
  rw [if_neg hbound, if_neg (show ¬n = 0 by omega)]
  by_cases hend : ba.capacity < ba.readFrom p + n
  · refine .inr (.inl ⟨not_lt.mp hbound, hend, ?_⟩)
    rw [readLoop_eq_none ba.chain _ n h.chain_sized hmod.le (by omega)]
    exact ite_self _
  · have hne : ba.chain ≠ [] := by
      rintro hnil
      rw [hnil, memOf_nil, List.length_nil] at hlen
      omega
    refine .inr (.inr ⟨not_lt.mp hbound, not_lt.mp hend, ?_⟩)
    rw [if_neg hne, readLoop_eq h.base_pos ba.chain _ n h.chain_sized hmod hne (by omega), h.memOf_chain,
      List.drop_drop]
    rfl

/-- `read(buf, n, p)` throws exactly past the end, delivers what a seek and a read on a copy deliver, and changes
nothing -/
def AgreesWithSeek (n p : ℕ) (ba : ByteArray) : Prop :=
  ((∃ what, (readAt n p ba).1 = .error (.outOfRange what)) ↔ ba.size < p + n) ∧
    (p + n ≤ ba.size → ∃ bs b1 b2, readAt n p ba = (.ok bs, ba) ∧ setPosition p ba = (.ok (), b1) ∧
      read n b1 = (.ok bs, b2)) ∧
    (readAt n p ba).2 = ba

/-- a seek and a read -/
theorem seek_read {ba : ByteArray} (h : Inv ba) {n p : ℕ} (hn : 1 ≤ n) (hle : p + n ≤ ba.size) :
    ∃ b1 b2, setPosition p ba = (.ok (), b1) ∧ read n b1 = (.ok ((ba.mem.drop p).take n), b2) := by
  have hcap := h.size_le
  obtain ⟨b1, h1, hinv, -, hpos, hsize, hmem⟩ := setPosition_spec h (show p ≤ ba.capacity by omega)
  have hrs : n ≤ b1.getReadSize := by rw [getReadSize, hsize, hpos]; omega
  obtain ⟨b2, h2, -⟩ := read_spec hinv hn hrs
  refine ⟨b1, b2, h1, ?_⟩
  rw [h2, ← hinv.slice_contents hrs, hmem, hpos]

theorem agrees_iff_inside {ba : ByteArray} (h : Inv ba) {n p : ℕ} (hn : 1 ≤ n) (hle : p + n ≤ ba.size) :
    AgreesWithSeek n p ba ↔ ba.readFrom p + n ≤ ba.capacity ∧
      (ba.mem.drop (ba.readFrom p)).take n = (ba.mem.drop p).take n := by
  obtain ⟨b1, b2, hseek, hread⟩ := seek_read h hn hle
  have hus : usub ba.size p = ba.size - p := by rw [usub, if_pos (by omega)]
  obtain ⟨hthrow, -⟩ | ⟨-, hend, hres⟩ | ⟨-, hend, hres⟩ := readAt_cases h hn p
  · omega
  · refine iff_of_false ?_ fun hc => by omega
    rintro ⟨-, hdeliver, -⟩
    obtain ⟨bs, -, -, hok, -⟩ := hdeliver hle
    rw [hres] at hok
    cases hok
  · constructor
    · rintro ⟨-, hdeliver, -⟩
      obtain ⟨bs, c1, c2, hok, k1, k2⟩ := hdeliver hle
      obtain rfl : b1 = c1 := (Prod.mk.inj (hseek.symm.trans k1)).2
      rw [hres] at hok
      rw [hread] at k2
      exact ⟨hend, (Except.ok.inj (Prod.mk.inj hok).1).trans (Except.ok.inj (Prod.mk.inj k2).1).symm⟩
    · rintro ⟨-, hsame⟩
      rw [← hsame] at hread
      refine ⟨iff_of_false ?_ (by omega), fun _ => ⟨_, b1, b2, hres, hseek, hread⟩, by rw [hres]⟩
      rintro ⟨what, herr⟩
      rw [hres] at herr
      cases herr

theorem agrees_iff_outside {ba : ByteArray} (h : Inv ba) {n p : ℕ} (hn : 1 ≤ n) (hgt : ba.size < p + n) :
    AgreesWithSeek n p ba ↔ usub ba.size p < n := by
  obtain ⟨hthrow, hres⟩ | ⟨hle, -, hres⟩ | ⟨hle, -, hres⟩ := readAt_cases h hn p
  · refine iff_of_true ⟨iff_of_true ⟨_, by rw [hres]⟩ hgt, fun hin => by omega, by rw [hres]⟩ hthrow
  all_goals
    refine iff_of_false ?_ (by omega)
    rintro ⟨hiff, -⟩
    obtain ⟨what, herr⟩ := hiff.mpr hgt
    rw [hres] at herr
    cases herr

/-- **Positional read.** In every reachable state, `read(buf, n, p)` with `n ≥ 1` agrees with a seek to `p` and a read
if and only if: `p` is not past the end but `p + n` is; or `p` is past the end and so far that `m_size - p`, which
wraps, is still less than `n`; or the bytes asked for are there and `p` is in the block of the cursor, or the bytes at
that offset of the cursor's block are there and the same. -/
theorem positional_read_iff (ba : ByteArray) (h : Reachable ba) (n p : ℕ) (hn : 1 ≤ n) :
    AgreesWithSeek n p ba ↔
      (p ≤ ba.size ∧ ba.size < p + n) ∨ (ba.size < p ∧ ba.size + 2 ^ 64 < p + n) ∨
      (p + n ≤ ba.size ∧ (p / ba.baseSize = ba.position / ba.baseSize ∨
        (ba.readFrom p + n ≤ ba.capacity ∧ (ba.mem.drop (ba.readFrom p)).take n = (ba.mem.drop p).take n))) := by
  have hinv := h.inv
  have hcap := hinv.size_le
  by_cases hle : p + n ≤ ba.size
  · rw [agrees_iff_inside hinv hn hle]
    constructor
    · intro hsame
      exact .inr (.inr ⟨hle, .inr hsame⟩)
    · rintro (⟨-, hgt⟩ | ⟨hgt, -⟩ | ⟨-, hdiv | hsame⟩)
      · omega
      · omega
      · rw [readFrom_of_div_eq hdiv]
        exact ⟨by omega, rfl⟩
      · exact hsame
  · rw [agrees_iff_outside hinv hn (by omega), usub]
    split_ifs with hp
    · exact iff_of_true (by omega) (.inl ⟨hp, by omega⟩)
    · constructor
      · intro hlt
        exact .inr (.inl ⟨by omega, by omega⟩)
      · rintro (⟨hle', -⟩ | ⟨-, hlt⟩ | ⟨hle', -⟩)
        · omega
        · omega
        · omega

theorem positional_read_iff_three : AgreesWithSeek 2 1 (written [1, 2, 3, 4] 0) :=
  (positional_read_iff (written [1, 2, 3, 4] 0) (reachable_written _ _) 2 1 (by decide)).mpr
    (.inr (.inr ⟨by decide, .inl (by decide)⟩))

/-- asked for the byte at 2, with the cursor in the block before it, the read delivers the one at 0; and past the end
it does not throw -/
theorem positional_read_strays :
    Reachable (written [1, 2, 3, 4] 0) ∧ ¬AgreesWithSeek 1 2 (written [1, 2, 3, 4] 0) ∧
      ¬AgreesWithSeek 1 5 (written [1, 2, 3, 4] 0) := by
  have h := (reachable_written [1, 2, 3, 4] 0).inv
  refine ⟨reachable_written _ _, ?_, ?_⟩
  · rw [agrees_iff_inside h (by decide) (by decide)]
    decide
  · rw [agrees_iff_outside h (by decide) (by decide)]
    decide

/-! ## Buffers at a position -/

/-- `getReadBuffers(buffers, len, position)`: the walk from `m_root` goes to `m_position` -/
def getReadBuffersAt (len _position : ℕ) : M (ℕ × List Iovec) := fun ba =>
  let len := if len > ba.getReadSize then ba.getReadSize else len
  if len = 0 then (.ok (0, []), ba)
  else
    let npos := ba.position % ba.baseSize
    let count := ba.position / ba.baseSize
    match iovLoop (ba.nodes.drop count) count npos len with
    | none => (.error .nullNode, ba)
    | some iovs => (.ok (len, iovs), ba)

/-- the walk from the root ends at the cached node, so the overloads are one function -/
theorem getReadBuffersAt_eq {ba : ByteArray} (h : Inv ba) (len p : ℕ) :
    getReadBuffersAt len p ba = getReadBuffers len ba := by
  unfold getReadBuffersAt getReadBuffers chain
  exact h.curIdx_eq ▸ rfl

/-- the entries denote the bytes from `p` on, as many as were asked for and are there -/
def DenotesFrom (len p : ℕ) (ba : ByteArray) : Prop :=
  ∃ iovs, getReadBuffersAt len p ba = (.ok (min len (ba.size - p), iovs), ba) ∧
    iovs.flatMap (iovBytes ba.nodes) = (ba.contents.drop p).take (min len (ba.size - p))

theorem denotesFrom_iff {ba : ByteArray} (h : Inv ba) {len p : ℕ} (hp : p ≤ ba.size) :
    DenotesFrom len p ba ↔ p = ba.position ∨ (len ≤ ba.size - p ∧ len ≤ ba.size - ba.position ∧
      (ba.contents.drop p).take len = (ba.contents.drop ba.position).take len) := by
  have hpos := h.pos_le
  have hrs : ba.getReadSize = ba.size - ba.position := rfl
  obtain ⟨iovs, hres, hbytes⟩ := getReadBuffers_spec h len
  rw [← getReadBuffersAt_eq h len p] at hres
  constructor
  · rintro ⟨iovs', hres', hbytes'⟩
    rw [hres, Prod.mk.injEq, Except.ok.injEq, Prod.mk.injEq] at hres'
    obtain ⟨⟨hcount, rfl⟩, -⟩ := hres'
    by_cases heq : p = ba.position
    · exact .inl heq
    · have hle : len ≤ ba.size - p ∧ len ≤ ba.size - ba.position := by omega
      rw [hbytes, hrs, min_eq_left hle.1, min_eq_left hle.2] at hbytes'
      exact .inr ⟨hle.1, hle.2, hbytes'.symm⟩
  · rintro (rfl | ⟨hle, hle', hsame⟩)
    · exact ⟨iovs, hres, hbytes⟩
    · rw [hrs, min_eq_left hle'] at hres hbytes
      refine ⟨iovs, ?_, ?_⟩
      · rw [min_eq_left hle, hres]
      · rw [min_eq_left hle, hbytes, hsame]

/-- **Positional buffers.** In every reachable state and for every position up to the size, the overload with a
position denotes the bytes from there on if and only if it is the cursor, or the `len` bytes are there in both places
and the same; at the cursor it is the overload without. -/
theorem positional_buffers_iff (ba : ByteArray) (h : Reachable ba) (len p : ℕ) (hp : p ≤ ba.size) :
    (DenotesFrom len p ba ↔ p = ba.position ∨ (len ≤ ba.size - p ∧ len ≤ ba.size - ba.position ∧
      (ba.contents.drop p).take len = (ba.contents.drop ba.position).take len)) ∧
    getReadBuffersAt len ba.position ba = getReadBuffers len ba :=
  ⟨denotesFrom_iff h.inv hp, getReadBuffersAt_eq h.inv len ba.position⟩

theorem positional_buffers_iff_cursor : DenotesFrom 9 1 (written [1, 2, 3] 1) :=
  (positional_buffers_iff (written [1, 2, 3] 1) (reachable_written _ _) 9 1 (by decide)).1.mpr (.inl (by decide))

/-- asked for the bytes from 1 on, the buffers are those from 0 on -/
theorem positional_buffers_stray :
    Reachable (written [1, 2, 3] 0) ∧ 1 ≤ (written [1, 2, 3] 0).size ∧ ¬DenotesFrom 2 1 (written [1, 2, 3] 0) := by
  refine ⟨reachable_written _ _, by decide, ?_⟩
  rw [denotesFrom_iff (reachable_written _ _).inv (by decide)]
  decide

end Sylar.ByteArray
