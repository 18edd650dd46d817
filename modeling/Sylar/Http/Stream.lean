/-
Reading from a connection (`socket_stream.cpp`, `stream.cpp`).

What the peer does is the list of what the coming `recv` calls meet (`Recv`): bytes, of which a call takes as many as it
has room for, or a result of at most 0. At the end of the list the peer has closed. After `close()` every read fails.

`readFixSize` stores what it reads behind a pointer. The target is a `std::string` with its own length, so a store can
miss it: `Body.put` keeps such a store (`spill`), which in the program overwrites what lies beside the string.
- `read_pos`, `read_nonpos`: one read, by the bytes still to come (`Conn.available`).
- `readFixSize_of_available_nil`, `readFixSize_past_end`: the first read fails, or stores past the end.
-/
import Mathlib.Tactic
import Sylar.Core.Splice
import Sylar.Http.Message

namespace Sylar.Http

open Sylar.Core

/-- what one `recv` meets; `fail code` is the result -code -/
inductive Recv where
  | data (bs : Bytes)
  | fail (code : ℕ)
deriving DecidableEq, Repr

structure Conn where
  recvs : List Recv
  connected : Bool := true
deriving DecidableEq, Repr

def Conn.close (c : Conn) : Conn := { c with connected := false }

/-- the most one read returns: its result is an `int` -/
def maxRead : ℕ := 2147483647

/-- `SocketStream::read(buffer, length)`: the result and the bytes stored -/
def Conn.read (c : Conn) (length : ℕ) : ℤ × Bytes × Conn :=
  if c.connected then
    match c.recvs with
    | [] => (0, [], c)
    | .fail code :: rs => (-code, [], { c with recvs := rs })
    | .data bs :: rs =>
      let n := min length maxRead
      if bs.length ≤ n then (bs.length, bs, { c with recvs := rs })
      else (n, bs.take n, { c with recvs := .data (bs.drop n) :: rs })
  else (-1, [], c)

/-- the bytes that can be read before a read fails -/
def available : List Recv → Bytes
  | [] => []
  | .fail _ :: _ => []
  | .data bs :: rs => if bs = [] then [] else bs ++ available rs

def Conn.available (c : Conn) : Bytes := if c.connected then Http.available c.recvs else []

/-- conversion to `int` -/
def toInt32 (n : ℤ) : ℤ := (2147483648 + n) % 4294967296 - 2147483648

/-- conversion to `int64_t` -/
def toInt64 (n : ℤ) : ℤ := (9223372036854775808 + n) % 18446744073709551616 - 9223372036854775808

theorem toInt32_of_lt {n : ℤ} (h0 : 0 ≤ n) (h : n < 2147483648) : toInt32 n = n := by
  unfold toInt32; omega

theorem toInt32_le {n : ℤ} (h : 0 ≤ n) : toInt32 n ≤ n := by
  unfold toInt32
  omega

theorem toInt64_of_lt {n : ℤ} (h0 : 0 ≤ n) (h : n < 9223372036854775808) : toInt64 n = n := by
  unfold toInt64; omega

/-- how a receiving function ends without a message: `nullptr`, an assertion that fails, `std::length_error`, undefined
behaviour -/
inductive Stop where
  | null
  | assertFailed
  | lengthError
  | undefined
deriving DecidableEq, Repr

/-! ## Texts in a buffer -/

/-- `LEN(AT, FPC)` -/
def lenFrom (start p : ℕ) : ℕ := if start ≤ p then p - start else 2 ^ 64 - (start - p)

/-- `std::string::max_size()` -/
def maxSize : ℕ := 2 ^ 63 - 1

/-- `std::string(buffer + start, len)` -/
def str (buffer : Bytes) (start len : ℕ) : Except Stop Bytes :=
  if maxSize < len then .error .lengthError else .ok ((buffer.drop start).take len)

theorem lenFrom_le {start p : ℕ} (h : start ≤ p) : lenFrom start p ≤ p := by
  rw [lenFrom, if_pos h]; omega

theorem str_ok (buffer : Bytes) (start : ℕ) {len : ℕ} (h : len ≤ maxSize) :
    str buffer start len = .ok ((buffer.drop start).take len) := by
  rw [str, if_neg (by omega)]

section
variable {n k : ℕ} {b₁ b₂ : Bytes} (hb : b₁.take n = (b₂.drop k).take n)
include hb

/-- a text inside the first `n` bytes, where the second buffer holds them from `k` on -/
theorem take_drop_same {start len : ℕ} (h : start + len ≤ n) :
    (b₁.drop start).take len = (b₂.drop (start + k)).take len := by
  have hcut : ∀ b : Bytes, (b.drop start).take len = ((b.take n).drop start).take len := by
    intro b
    rw [List.drop_take, List.take_take, min_eq_left (by omega)]
  rw [hcut, hb, ← hcut, List.drop_drop, Nat.add_comm]

theorem str_same {start len : ℕ} (h : start + len ≤ n) : str b₁ start len = str b₂ (start + k) len := by
  rw [str, str, take_drop_same hb h]

theorem strncmpEq_same {start len : ℕ} (h : start + len ≤ n) (x : Bytes) :
    strncmpEq (b₁.drop start) x len = strncmpEq (b₂.drop (start + k)) x len := by
  rw [strncmpEq, strncmpEq, cstr_take (b₁.drop start), cstr_take (b₂.drop (start + k)), take_drop_same hb h]

end

/-! ## One read -/

/-- a read that succeeds returns the next bytes of the peer -/
theorem read_pos {c c' : Conn} {n : ℕ} {len : ℤ} {bs : Bytes} (h : c.read n = (len, bs, c')) (hpos : 0 < len) :
    len = bs.length ∧ 0 < bs.length ∧ bs.length ≤ min n maxRead ∧ c.available = bs ++ c'.available := by
  unfold Conn.read at h
  split_ifs at h with hconn
  · split at h
    · simp only [Prod.mk.injEq] at h; omega
    · simp only [Prod.mk.injEq] at h; omega
    · next ds rs hrs =>
      dsimp only at h
      split_ifs at h with hfit
      · simp only [Prod.mk.injEq] at h
        obtain ⟨rfl, rfl, rfl⟩ := h
        have hne : ds ≠ [] := List.ne_nil_of_length_pos (by omega)
        refine ⟨rfl, by omega, hfit, ?_⟩
        simp only [Conn.available, hconn, if_true, hrs, available, hne, if_false]
      · simp only [Prod.mk.injEq] at h
        obtain ⟨rfl, rfl, rfl⟩ := h
        have hne : ds ≠ [] := List.ne_nil_of_length_pos (by omega)
        have hdrop : ds.drop (min n maxRead) ≠ [] := List.ne_nil_of_length_pos (by rw [List.length_drop]; omega)
        have hlen : (ds.take (min n maxRead)).length = min n maxRead := by rw [List.length_take]; omega
        refine ⟨by rw [hlen], by omega, by omega, ?_⟩
        simp only [Conn.available, hconn, if_true, hrs, available, hne, hdrop, if_false]
        rw [← List.append_assoc, List.take_append_drop]
  · simp only [Prod.mk.injEq] at h; omega

/-- a read that fails shows that the peer sends nothing -/
theorem read_nonpos {c c' : Conn} {n : ℕ} {len : ℤ} {bs : Bytes} (h : c.read n = (len, bs, c')) (hn : 0 < n)
    (hle : len ≤ 0) : c.available = [] := by
  have hmin : 0 < min n maxRead := lt_min hn (by decide)
  unfold Conn.read at h
  split_ifs at h with hconn
  · split at h
    · next hrs => simp only [Conn.available, hconn, if_true, hrs, available]
    · next hrs => simp only [Conn.available, hconn, if_true, hrs, available]
    · next ds rs hrs =>
      dsimp only at h
      split_ifs at h with hfit
      · simp only [Prod.mk.injEq] at h
        have hnil : ds = [] := List.eq_nil_of_length_eq_zero (by omega)
        simp only [Conn.available, hconn, if_true, hrs, available, hnil]
      · simp only [Prod.mk.injEq] at h; omega
  · simp only [Conn.available, hconn]
    rfl

def Recv.weight : Recv → ℕ
  | .data bs => bs.length + 1
  | .fail _ => 1

/-- how much the peer still has to do; no read adds to it, also none that fails -/
def Conn.weight (c : Conn) : ℕ := (c.recvs.map Recv.weight).sum


theorem read_weight (c : Conn) (n : ℕ) :
    (c.read n).2.2.weight ≤ c.weight ∧ (0 < (c.read n).1 → (c.read n).2.2.weight < c.weight) := by
  unfold Conn.read
  split_ifs
  · split
    · exact ⟨le_refl _, fun h => absurd h (by simp)⟩
    · next code rs hrs => simp [Conn.weight, hrs, Recv.weight]
    · next bs rs hrs =>
      dsimp only
      split_ifs with hfit
      · simp only [Conn.weight, hrs, List.map_cons, List.sum_cons, Recv.weight]
        omega
      · simp only [Conn.weight, hrs, List.map_cons, List.sum_cons, Recv.weight, List.length_drop]
        omega
  · exact ⟨le_refl _, fun h => absurd h (by simp)⟩

/-! ## `readFixSize` -/

/-- a string and the stores that missed it, each with its index -/
structure Body where
  bytes : Bytes
  spill : List (ℤ × Bytes) := []
deriving DecidableEq, Repr

/-- store `bs` from index `pos` on -/
def Body.put (b : Body) (pos : ℤ) (bs : Bytes) : Body :=
  if 0 ≤ pos ∧ pos + bs.length ≤ b.bytes.length then { b with bytes := splice b.bytes pos.toNat bs }
  else
    { bytes := (splice b.bytes pos.toNat (bs.drop (-pos).toNat)).take b.bytes.length
      spill := b.spill ++ [(pos, bs)] }

/-- the loop of `readFixSize(&body[pos], length)`, at `offset` with `left` bytes to go -/
def readFixSizeLoop (c : Conn) (b : Body) (pos : ℤ) (length offset : ℕ) (left : ℤ) : ℤ × Body × Conn :=
  if 0 < left then
    match hr : c.read left.toNat with
    | (len, bs, c') =>
      if len ≤ 0 then (len, b, c')
      else readFixSizeLoop c' (b.put (pos + offset) bs) pos length (offset + bs.length) (left - len)
  else (toInt32 length, b, c)
termination_by left.toNat
decreasing_by
  have := read_pos hr (by omega)
  omega

def readFixSize (c : Conn) (b : Body) (pos : ℤ) (length : ℕ) : ℤ × Body × Conn :=
  readFixSizeLoop c b pos length 0 (toInt64 length)

theorem put_inside {b : Body} {pos : ℕ} {bs : Bytes} (h : pos + bs.length ≤ b.bytes.length) :
    b.put pos bs = { b with bytes := splice b.bytes pos bs } := by
  rw [Body.put, if_pos ⟨by omega, by omega⟩, Int.toNat_natCast]

theorem spill_put_outside {b : Body} {pos : ℤ} {bs : Bytes} (h : (b.bytes.length : ℤ) ≤ pos) (hbs : 0 < bs.length) :
    (b.put pos bs).spill ≠ [] := by
  rw [Body.put, if_neg (by omega)]
  simp

theorem spill_put (b : Body) (pos : ℤ) (bs : Bytes) (h : b.spill ≠ []) : (b.put pos bs).spill ≠ [] := by
  unfold Body.put
  split_ifs <;> simp [h]

/-- a missed store stays one -/
theorem spill_readFixSizeLoop (c : Conn) (b : Body) (pos : ℤ) (length offset : ℕ) (left : ℤ) (h : b.spill ≠ []) :
    (readFixSizeLoop c b pos length offset left).2.1.spill ≠ [] := by
  fun_induction readFixSizeLoop c b pos length offset left with
  | case1 => exact h
  | case2 c b offset left hleft len bs c' hr hlen ih => exact ih (spill_put b _ bs h)
  | case3 => exact h

theorem readFixSizeLoop_weight (c : Conn) (b : Body) (pos : ℤ) (length offset : ℕ) (left : ℤ) :
    (readFixSizeLoop c b pos length offset left).2.2.weight ≤ c.weight := by
  fun_induction readFixSizeLoop c b pos length offset left with
  | case1 c b offset left hleft len bs c' hr hlen =>
    have := (read_weight c left.toNat).1
    rwa [hr] at this
  | case2 c b offset left hleft len bs c' hr hlen ih =>
    have := (read_weight c left.toNat).1
    rw [hr] at this
    exact ih.trans this
  | case3 => exact le_refl _

/-- with no byte to come, the first read fails and nothing is stored -/
theorem readFixSize_of_available_nil {c : Conn} (hc : c.available = []) (b : Body) (pos : ℤ) {length : ℕ}
    (h0 : 0 < length) (hlt : length < 2147483648) :
    (readFixSize c b pos length).1 ≤ 0 ∧ (readFixSize c b pos length).2.1 = b := by
  have hleft : toInt64 length = length := toInt64_of_lt (by omega) (by omega)
  rcases hr : c.read (toInt64 length).toNat with ⟨len, bs, c'⟩
  have hlen : len ≤ 0 := by
    by_contra hpos
    obtain ⟨-, hbs, -, happ⟩ := read_pos hr (by omega)
    have := congrArg List.length happ
    rw [hc, List.length_append, List.length_nil] at this
    omega
  rw [readFixSize, readFixSizeLoop, if_pos (by omega)]
  simp only [hr]
  rw [if_pos hlen]
  exact ⟨hlen, rfl⟩

/-- from the end of the string on every byte read misses it -/
theorem readFixSize_past_end {c : Conn} (hc : c.available ≠ []) {b : Body} {pos : ℤ} (hpos : (b.bytes.length : ℤ) ≤ pos)
    {length : ℕ} (h0 : 0 < length) (hlt : length < 2147483648) : (readFixSize c b pos length).2.1.spill ≠ [] := by
  have hleft : toInt64 length = length := toInt64_of_lt (by omega) (by omega)
  rcases hr : c.read (toInt64 length).toNat with ⟨len, bs, c'⟩
  have hlen : ¬len ≤ 0 := fun hle => hc (read_nonpos hr (by omega) hle)
  obtain ⟨-, hbs, -, -⟩ := read_pos hr (by omega)
  rw [readFixSize, readFixSizeLoop, if_pos (by omega)]
  simp only [hr]
  rw [if_neg hlen]
  exact spill_readFixSizeLoop _ _ _ _ _ _ (spill_put_outside (by omega) hbs)

end Sylar.Http
