/-
Transfers of a fixed size (`stream.cpp`): how their result tells whether all bytes have been moved.

`readFixSize` and `writeFixSize` call `read` or `write` until nothing is left or a call fails. They count in `size_t` and
`int64_t`, but their result is an `int`.
- `run_spec`: below 2^63 bytes the loop moves every byte once and in order, up to a call that fails.
- `fixSize_iff`: the result says so exactly below 2^31 bytes, or where the transfer fails; of 2^63 bytes and more nothing
  is moved.
- `exists_results`: the loops over a connection and over a `ByteArray` give the results of such a transfer.
-/
import Mathlib.Tactic
import Sylar.Http.DoRequest
import Sylar.ByteArray.Scatter

namespace Sylar.FixSize

open Sylar.Http
open Sylar.ByteArray (Err Out streamRead streamWrite)

/-- a call of `read` or `write`: the first byte, how many are asked for, and the result -/
structure Call where
  offset : ℕ
  asked : ℕ
  len : ℤ
deriving DecidableEq, Repr

/-- the bytes of all calls, by their index -/
def moved (calls : List Call) : List ℕ := calls.flatMap fun c => List.range' c.offset c.len.toNat

/-- the loop of all four functions, before the call with the result `results k`; `offset` is their variable or, with a
`ByteArray`, how far the calls have moved its position -/
def fixSizeLoop (length : ℕ) (results : ℕ → ℤ) (k offset : ℕ) (left : ℤ) : ℤ × List Call :=
  if 0 < left then
    let len := results k
    if len ≤ 0 then (len, [⟨offset, left.toNat, len⟩])
    else
      let rest := fixSizeLoop length results (k + 1) (offset + len.toNat) (left - len)
      (rest.1, ⟨offset, left.toNat, len⟩ :: rest.2)
  else (toInt32 length, [])
termination_by left.toNat

/-- `readFixSize(buffer, length)`, with the results of `read(buffer + offset, left)` -/
def readFixSize (length : ℕ) (results : ℕ → ℤ) : ℤ × List Call := fixSizeLoop length results 0 0 (toInt64 length)

/-- `readFixSize(ba, length)`, with the results of `read(ba, left)` -/
def readFixSizeByteArray (length : ℕ) (results : ℕ → ℤ) : ℤ × List Call :=
  fixSizeLoop length results 0 0 (toInt64 length)

/-- `writeFixSize(buffer, length)`, with the results of `write(buffer + offset, left)` -/
def writeFixSize (length : ℕ) (results : ℕ → ℤ) : ℤ × List Call := fixSizeLoop length results 0 0 (toInt64 length)

/-- `writeFixSize(ba, length)`, with the results of `write(ba, left)` -/
def writeFixSizeByteArray (length : ℕ) (results : ℕ → ℤ) : ℤ × List Call :=
  fixSizeLoop length results 0 0 (toInt64 length)

/-! ## What is meant -/

/-- what the first `k` calls have moved -/
def sent (results : ℕ → ℤ) (k : ℕ) : ℤ := ∑ i ∈ Finset.range k, results i

/-- no call moves more than what is left of the `length` bytes -/
def Within (length : ℕ) (results : ℕ → ℤ) : Prop :=
  ∀ k, (∀ i < k, 0 < results i) → sent results k < length → results k ≤ length - sent results k

/-- the calls come to `length` bytes before one fails -/
def Delivers (length : ℕ) (results : ℕ → ℤ) : Prop := ∃ k, (∀ i < k, 0 < results i) ∧ sent results k = length

/-- the result of a transfer is that of its calls -/
structure Truthful (length : ℕ) (out : ℤ × List Call) : Prop where
  success : 0 < out.1 ∧ out.1 = length ↔ 0 < length ∧ moved out.2 = List.range length
  positive : 0 < out.1 ↔ 0 < length ∧ moved out.2 = List.range length
  failure : 0 < length → moved out.2 ≠ List.range length →
    out.1 ≤ 0 ∧ out.2.getLast?.map (·.len) = some out.1

/-! ## The loop -/

theorem sent_succ (results : ℕ → ℤ) (k : ℕ) : sent results (k + 1) = sent results k + results k :=
  Finset.sum_range_succ _ _

/-- as long as no call fails, more and more is moved -/
theorem sent_mono {results : ℕ → ℤ} {j k : ℕ} (hpos : ∀ i < k, 0 < results i) (h : j ≤ k) :
    sent results j ≤ sent results k := by
  induction k with
  | zero =>
    rw [Nat.le_zero.mp h]
  | succ k ih =>
    rcases Nat.le_succ_iff.mp h with hle | rfl
    · have hk := ih (fun i hi => hpos i (by omega)) hle
      have hlast := hpos k (by omega)
      rw [sent_succ]
      omega
    · rfl

/-- after a failing call nothing is delivered any more -/
theorem not_delivers {length k : ℕ} {results : ℕ → ℤ} (hpos : ∀ i < k, 0 < results i) (hfail : results k ≤ 0)
    (hlt : sent results k < length) : ¬Delivers length results := by
  rintro ⟨j, hj, hsent⟩
  rcases Nat.lt_or_ge k j with hkj | hjk
  · exact absurd (hj k hkj) (by omega)
  · have hle := sent_mono hpos hjk
    omega

/-- the loop moves the bytes from `offset` on, all of them or those before a failing call -/
theorem fixSizeLoop_spec {length : ℕ} {results : ℕ → ℤ} (hwithin : Within length results) {left k offset : ℕ}
    (hpos : ∀ i < k, 0 < results i) (hsent : sent results k = offset) (hleft : offset + left = length) :
    (Delivers length results ∧ (fixSizeLoop length results k offset left).1 = toInt32 length ∧
        moved (fixSizeLoop length results k offset left).2 = List.range' offset left) ∨
      (¬Delivers length results ∧ (fixSizeLoop length results k offset left).1 ≤ 0 ∧
        (fixSizeLoop length results k offset left).2.getLast?.map (·.len) =
          some (fixSizeLoop length results k offset left).1 ∧
        ∃ m < left, moved (fixSizeLoop length results k offset left).2 = List.range' offset m) := by
  induction left using Nat.strong_induction_on generalizing k offset with
  | _ left ih =>
    rw [fixSizeLoop]
    by_cases hzero : left = 0
    · left
      subst hzero
      refine ⟨⟨k, hpos, by omega⟩, ?_, ?_⟩
      · rfl
      · rfl
    have hlt : sent results k < length := by omega
    rw [if_pos (by omega)]
    dsimp only
    split_ifs with hfail
    · right
      refine ⟨not_delivers hpos hfail hlt, hfail, rfl, 0, by omega, ?_⟩
      rw [moved, List.flatMap_cons, List.flatMap_nil, List.append_nil, Int.toNat_of_nonpos hfail]
    · obtain ⟨n, hn⟩ : ∃ n : ℕ, results k = n := ⟨(results k).toNat, by omega⟩
      have hle := hwithin k hpos hlt
      have hrest : (left : ℤ) - results k = (left - n : ℕ) := by omega
      have hpos' : ∀ i < k + 1, 0 < results i := by
        intro i hi
        rcases Nat.lt_succ_iff_lt_or_eq.mp hi with hi | rfl
        · exact hpos i hi
        · omega
      have hsent' : sent results (k + 1) = (offset + n : ℕ) := by
        rw [sent_succ, hsent, hn, Nat.cast_add]
      have hnat : (results k).toNat = n := by omega
      have happ : ∀ m, List.range' offset n ++ List.range' (offset + n) m = List.range' offset (n + m) := by
        intro m
        rw [List.range'_append_1]
      rw [hrest, hnat]
      rcases ih (left - n) (by omega) hpos' hsent' (by omega) with ⟨hdel, hrt, hmoved⟩ | ⟨hdel, hrt, hlast, m, hm, hmoved⟩
      · left
        refine ⟨hdel, hrt, ?_⟩
        rw [moved, List.flatMap_cons, ← moved, hmoved, hnat, happ, Nat.add_sub_cancel' (by omega)]
      · right
        refine ⟨hdel, hrt, ?_, n + m, by omega, ?_⟩
        · obtain ⟨last, hget, hlen⟩ := Option.map_eq_some_iff.mp hlast
          rw [List.getLast?_cons, hget, Option.getD_some, Option.map_some, hlen]
        · rw [moved, List.flatMap_cons, ← moved, hmoved, hnat, happ]

/-- **A run of the loop** on fewer than 2^63 bytes -/
theorem run_spec {length : ℕ} (hlength : length < 2 ^ 63) {results : ℕ → ℤ} (hwithin : Within length results) :
    (Delivers length results ∧ (fixSizeLoop length results 0 0 (toInt64 length)).1 = toInt32 length ∧
        moved (fixSizeLoop length results 0 0 (toInt64 length)).2 = List.range length) ∨
      (¬Delivers length results ∧ (fixSizeLoop length results 0 0 (toInt64 length)).1 ≤ 0 ∧
        (fixSizeLoop length results 0 0 (toInt64 length)).2.getLast?.map (·.len) =
          some (fixSizeLoop length results 0 0 (toInt64 length)).1 ∧
        ∃ m < length, moved (fixSizeLoop length results 0 0 (toInt64 length)).2 = List.range m) := by
  rw [toInt64_of_lt (by omega) (by omega)]
  simp only [List.range_eq_range']
  exact @fixSizeLoop_spec length results hwithin length 0 0 nofun rfl (Nat.zero_add _)

/-- from 2^63 bytes on nothing is left from the start -/
theorem fixSizeLoop_huge {length : ℕ} (hle : 2 ^ 63 ≤ length) (hlength : length < 2 ^ 64) (results : ℕ → ℤ) :
    fixSizeLoop length results 0 0 (toInt64 length) = (toInt32 length, []) := by
  have hneg : ¬0 < toInt64 length := by
    unfold toInt64
    omega
  rw [fixSizeLoop, if_neg hneg]

theorem toInt32_eq_iff {length : ℕ} : toInt32 length = length ↔ length < 2 ^ 31 := by
  unfold toInt32
  omega

section
variable {length : ℕ} {out : ℤ × List Call}

/-- where all bytes are moved, the result is right if the length is an `int` -/
theorem truthful_delivered (hrt : out.1 = toInt32 length) (hall : moved out.2 = List.range length) :
    Truthful length out ↔ length < 2 ^ 31 := by
  constructor
  · intro h
    by_cases hzero : length = 0
    · omega
    have hsuccess := h.success.mpr ⟨by omega, hall⟩
    rw [hrt] at hsuccess
    exact toInt32_eq_iff.mp hsuccess.2
  · intro h
    rw [toInt32_eq_iff.mpr h] at hrt
    refine ⟨?_, ?_, fun _ hne => absurd hall hne⟩
    · rw [hrt]
      simp [hall]
    · rw [hrt]
      simp [hall]

/-- where a call fails, its result is right -/
theorem truthful_failed (hrt : out.1 ≤ 0) (hlast : out.2.getLast?.map (·.len) = some out.1) {m : ℕ} (hm : m < length)
    (hmoved : moved out.2 = List.range m) : Truthful length out := by
  have hsome : moved out.2 ≠ List.range length := by
    intro heq
    have hlen := congrArg List.length heq
    rw [hmoved, List.length_range, List.length_range] at hlen
    omega
  refine ⟨?_, ?_, fun _ _ => ⟨hrt, hlast⟩⟩
  · exact iff_of_false (fun h => by omega) fun h => hsome h.2
  · exact iff_of_false (by omega) fun h => hsome h.2

/-- without a call no call has failed -/
theorem not_truthful_nil (hpos : 0 < length) (rt : ℤ) : ¬Truthful length (rt, []) := by
  intro h
  have hne : moved [] ≠ List.range length := by
    intro heq
    have hlen := congrArg List.length heq
    rw [List.length_range] at hlen
    have hzero : (moved []).length = 0 := rfl
    omega
  exact absurd (h.failure hpos hne).2 nofun

end

/-- **Transfers of a fixed size.** For each of the four functions, every length of type `size_t` and all results of the
underlying calls, none of them more than was asked for: the result is positive, and the length, just if every byte was
moved once and in order, and else it is that of the failing call, exactly if the length is below 2^31, or it is below
2^63 and a call fails before all bytes are moved. -/
theorem fixSize_iff {length : ℕ} (hlength : length < 2 ^ 64) {results : ℕ → ℤ} (hwithin : Within length results)
    {f : ℕ → (ℕ → ℤ) → ℤ × List Call}
    (hf : f ∈ [readFixSize, readFixSizeByteArray, writeFixSize, writeFixSizeByteArray]) :
    Truthful length (f length results) ↔ length < 2 ^ 31 ∨ length < 2 ^ 63 ∧ ¬Delivers length results := by
  have hloop : f length results = fixSizeLoop length results 0 0 (toInt64 length) := by
    simp only [List.mem_cons, List.not_mem_nil, or_false] at hf
    rcases hf with rfl | rfl | rfl | rfl
    all_goals rfl
  rw [hloop]
  rcases Nat.lt_or_ge length (2 ^ 63) with hsmall | hhuge
  · rcases run_spec hsmall hwithin with ⟨hdel, hrt, hall⟩ | ⟨hdel, hrt, hlast, m, hm, hmoved⟩
    · rw [truthful_delivered hrt hall]
      exact (or_iff_left fun h => h.2 hdel).symm
    · exact iff_of_true (truthful_failed hrt hlast hm hmoved) (Or.inr ⟨hsmall, hdel⟩)
  · rw [fixSizeLoop_huge hhuge hlength]
    exact iff_of_false (not_truthful_nil (by omega) _) (by omega)

theorem sent_const (n k : ℕ) : sent (fun _ => n) k = k * n := by
  rw [sent, Finset.sum_const, Finset.card_range, nsmul_eq_mul]

/-- calls that move `n` bytes each -/
theorem within_const {length n : ℕ} (h : n ∣ length) : Within length fun _ => n := by
  obtain ⟨m, rfl⟩ := h
  intro k _ hlt
  rw [sent_const] at hlt ⊢
  have hk : k * n < m * n := by
    rw [Nat.mul_comm m]
    exact_mod_cast hlt
  have hkm : k + 1 ≤ m := lt_of_mul_lt_mul_right hk (Nat.zero_le n)
  have hle : ((k + 1) * n : ℤ) ≤ (n * m : ℕ) := by
    rw [Nat.mul_comm n]
    exact_mod_cast Nat.mul_le_mul_right n hkm
  calc (n : ℤ) = (k + 1) * n - k * n := by ring
    _ ≤ (n * m : ℕ) - k * n := Int.sub_le_sub_right hle _

/-- three bytes, one in each call -/
theorem fixSize_iff_three : Truthful 3 (readFixSize 3 fun _ => (1 : ℕ)) :=
  (fixSize_iff (by decide) (within_const (one_dvd 3)) List.mem_cons_self).mpr (Or.inl (by decide))

/-- of 2^31 bytes all are moved in two calls, and the result is negative -/
theorem size_changes_sign :
    Within (2 ^ 31) (fun _ => (2 ^ 30 : ℕ)) ∧ (readFixSize (2 ^ 31) fun _ => (2 ^ 30 : ℕ)).1 = -2147483648 ∧
      moved (readFixSize (2 ^ 31) fun _ => (2 ^ 30 : ℕ)).2 = List.range (2 ^ 31) ∧
      ¬Truthful (2 ^ 31) (readFixSize (2 ^ 31) fun _ => (2 ^ 30 : ℕ)) := by
  have hwithin : Within (2 ^ 31) fun _ => (2 ^ 30 : ℕ) := within_const ⟨2, rfl⟩
  have hdel : Delivers (2 ^ 31) fun _ => (2 ^ 30 : ℕ) := ⟨2, by norm_num, by rw [sent_const]; norm_num⟩
  obtain ⟨hrt, hmoved⟩ : (readFixSize (2 ^ 31) fun _ => (2 ^ 30 : ℕ)).1 = toInt32 (2 ^ 31 : ℕ) ∧
      moved (readFixSize (2 ^ 31) fun _ => (2 ^ 30 : ℕ)).2 = List.range (2 ^ 31) := by
    rcases run_spec (by norm_num) hwithin with h | h
    · exact h.2
    · exact absurd hdel h.1
  have hneg : toInt32 (2 ^ 31 : ℕ) = -2147483648 := by decide
  rw [hneg] at hrt
  refine ⟨hwithin, hrt, hmoved, fun h => ?_⟩
  have hpos := h.positive.mpr ⟨by norm_num, hmoved⟩
  omega

/-! ## The other models of these loops -/

theorem fixSizeLoop_shift (length : ℕ) (results : ℕ → ℤ) (k offset : ℕ) (left : ℤ) :
    fixSizeLoop length results (k + 1) offset left = fixSizeLoop length (fun i => results (i + 1)) k offset left := by
  fun_induction fixSizeLoop length (fun i => results (i + 1)) k offset left with
  | case1 k offset left hleft len hlen =>
    rw [fixSizeLoop, if_pos hleft]
    exact if_pos hlen
  | case2 k offset left hleft len hlen rest ih =>
    rw [fixSizeLoop, if_pos hleft]
    dsimp only
    rw [if_neg hlen, ih]
  | case3 k offset left hleft => rw [fixSizeLoop, if_neg hleft]

/-- the results from the first call on -/
def cons (len : ℤ) (results : ℕ → ℤ) : ℕ → ℤ
  | 0 => len
  | k + 1 => results k

theorem within_zero (length : ℕ) : Within length fun _ => 0 := by
  intro k _ hlt
  exact Int.sub_nonneg_of_le hlt.le

theorem sent_cons (len : ℤ) (results : ℕ → ℤ) (k : ℕ) : sent (cons len results) (k + 1) = len + sent results k := by
  rw [sent, Finset.sum_range_succ', add_comm]
  rfl

theorem within_cons {n : ℕ} {len : ℤ} {results : ℕ → ℤ} (hlen : len ≤ n)
    (h : 0 < len → Within (n - len.toNat) results) : Within n (cons len results) := by
  intro k hpos hlt
  cases k with
  | zero => simpa [sent, cons] using hlen
  | succ k =>
    have h0 : 0 < len := hpos 0 (Nat.succ_pos k)
    rw [sent_cons] at hlt ⊢
    have hk := h h0 k (fun i hi => hpos (i + 1) (by omega)) (by omega)
    show results k ≤ _
    omega

section
variable {σ ε : Type}

/-- what a loop does with the outcome of a call -/
def afterCall (run : σ → ℤ → Except ε ℤ) (left : ℤ) : Except ε ℤ × σ → Except ε ℤ
  | (.error e, _) => .error e
  | (.ok len, s) => if len ≤ 0 then .ok len else run s (left - len)

/-- a loop like `fixSizeLoop` over calls with a state -/
def LoopsOver (call : σ → ℕ → Except ε ℤ × σ) (run : σ → ℤ → Except ε ℤ) (length : ℕ) : Prop :=
  ∀ s left, run s left = if 0 < left then afterCall run left (call s left.toNat) else .ok (toInt32 length)

variable {call : σ → ℕ → Except ε ℤ × σ} {run : σ → ℤ → Except ε ℤ} {length : ℕ} {P : σ → Prop}
  (hcall : ∀ s n len s', P s → 0 < n → call s n = (.ok len, s') → len ≤ n ∧ (0 < len → P s'))
  (hrun : LoopsOver call run length)
include hcall hrun

/-- a loop that takes the results of its calls like `fixSizeLoop` gives the result of a transfer, if it gives one -/
theorem exists_results_loop {left : ℕ} {s : σ} (hs : P s) {rt : ℤ} (h : run s left = .ok rt) (offset : ℕ) :
    ∃ results, Within left results ∧ (fixSizeLoop length results 0 offset left).1 = rt := by
  induction left using Nat.strong_induction_on generalizing s offset with
  | _ left ih =>
    rw [hrun] at h
    by_cases hzero : left = 0
    · subst hzero
      refine ⟨fun _ => 0, within_zero 0, ?_⟩
      rw [if_neg (by omega)] at h
      rw [fixSizeLoop, if_neg (by omega)]
      exact Except.ok.inj h
    rw [if_pos (by omega), Int.toNat_natCast] at h
    rcases hfirst : call s left with ⟨e | len, s'⟩
    · rw [hfirst] at h
      cases h
    · rw [hfirst, afterCall] at h
      obtain ⟨hle, hs'⟩ := hcall s left len s' hs (by omega) hfirst
      split_ifs at h with hfail
      · refine ⟨cons len fun _ => 0, within_cons hle fun hpos => absurd hpos (by omega), ?_⟩
        rw [fixSizeLoop, if_pos (by omega)]
        dsimp only [cons]
        rw [if_pos hfail]
        exact Except.ok.inj h
      · have hrest : (left : ℤ) - len = (left - len.toNat : ℕ) := by omega
        rw [hrest] at h
        obtain ⟨results, hwithin, hrt⟩ := ih (left - len.toNat) (by omega) (hs' (by omega)) h (offset + len.toNat)
        refine ⟨cons len results, within_cons hle fun _ => hwithin, ?_⟩
        rw [fixSizeLoop, if_pos (by omega)]
        dsimp only [cons]
        rw [if_neg hfail, fixSizeLoop_shift, hrest]
        exact hrt

theorem exists_results (hlength : length < 2 ^ 64) {s : σ} (hs : P s) {rt : ℤ}
    (h : run s (toInt64 length) = .ok rt) :
    ∃ results, Within length results ∧ (fixSizeLoop length results 0 0 (toInt64 length)).1 = rt := by
  rcases Nat.lt_or_ge length (2 ^ 63) with hsmall | hhuge
  · rw [toInt64_of_lt (by omega) (by omega)] at h ⊢
    exact exists_results_loop hcall hrun hs h 0
  · have hneg : ¬0 < toInt64 length := by
      unfold toInt64
      omega
    rw [hrun, if_neg hneg] at h
    refine ⟨fun _ => 0, within_zero length, ?_⟩
    rw [fixSizeLoop_huge hhuge hlength]
    exact Except.ok.inj h

end

/-- a call of `read` on a connection, with the string it stores into and the offset there -/
def readCall (pos : ℤ) (s : Conn × Body × ℕ) (n : ℕ) : Except Empty ℤ × Conn × Body × ℕ :=
  match s.1.read n with
  | (len, bs, c') => (.ok len, c', s.2.1.put (pos + s.2.2) bs, s.2.2 + bs.length)

/-- `readFixSize` into a string -/
theorem readFixSize_results (c : Conn) (b : Body) (pos : ℤ) {length : ℕ} (hlength : length < 2 ^ 64) :
    ∃ results, Within length results ∧ (readFixSize length results).1 = (Http.readFixSize c b pos length).1 := by
  let run : Conn × Body × ℕ → ℤ → Except Empty ℤ := fun s left =>
    .ok (Http.readFixSizeLoop s.1 s.2.1 pos length s.2.2 left).1
  have hcall : ∀ s n len s', True → 0 < n → readCall pos s n = (.ok len, s') → len ≤ n ∧ (0 < len → True) := by
    rintro ⟨c, b, offset⟩ n len s' - hn heq
    refine ⟨?_, fun _ => trivial⟩
    rcases hread : c.read n with ⟨rt, bs, c'⟩
    rw [readCall, hread] at heq
    obtain rfl : rt = len := Except.ok.inj (Prod.mk.inj heq).1
    by_contra hgt
    obtain ⟨hlen, -, hfit, -⟩ := read_pos hread (by omega)
    have hle := hfit.trans (min_le_left n maxRead)
    omega
  have hrun : LoopsOver (readCall pos) run length := by
    rintro ⟨c, b, offset⟩ left
    dsimp only [run]
    rw [readFixSizeLoop]
    split_ifs with hleft
    · rcases hread : c.read left.toNat with ⟨len, bs, c'⟩
      simp only [readCall, hread, afterCall]
      split_ifs
      · rfl
      · rfl
    · rfl
  have hself : run (c, b, 0) (toInt64 length) = .ok (Http.readFixSize c b pos length).1 := rfl
  exact exists_results hcall hrun hlength trivial hself

/-- a call of `write` on a socket -/
def writeCall (s : Socket.Sock) (sends : List Sent) (n : ℕ) : Except Empty ℤ × List Sent :=
  match Sock.write s sends n with
  | (len, sends') => (.ok len, sends')

/-- `writeFixSize` of a dumped request -/
theorem sendRequest_results (s : Socket.Sock) (sends : List Sent) (req : HttpRequest)
    (hlength : req.dump.length < 2 ^ 64) :
    ∃ results, Within req.dump.length results ∧
      (writeFixSize req.dump.length results).1 = (sendRequest s sends req).1 := by
  let run : List Sent → ℤ → Except Empty ℤ := fun sends left =>
    .ok (writeFixSizeLoop s sends req.dump.length left).1
  have hcall : ∀ sends n len sends', True → 0 < n → writeCall s sends n = (.ok len, sends') →
      len ≤ n ∧ (0 < len → True) := by
    intro sends n len sends' _ hn heq
    refine ⟨?_, fun _ => trivial⟩
    have hlen : (Sock.write s sends n).1 = len := Except.ok.inj (Prod.mk.inj heq).1
    rw [← hlen]
    unfold Sock.write Sock.send
    split_ifs
    · omega
    · split <;> dsimp only <;> omega
    · omega
  have hrun : LoopsOver (writeCall s) run req.dump.length := by
    intro sends left
    dsimp only [run]
    rw [writeFixSizeLoop]
    split_ifs with hleft
    · rcases hwrite : Sock.write s sends left.toNat with ⟨len, sends'⟩
      simp only [writeCall, hwrite, afterCall]
      split_ifs
      · rfl
      · rfl
    · rfl
  have hself : run sends (toInt64 req.dump.length) = .ok (sendRequest s sends req).1 := rfl
  exact exists_results hcall hrun hlength trivial hself

/-- with no byte to come no read into a `ByteArray` succeeds -/
theorem streamRead_nonpos {n : ℕ} {junk : ℕ → UInt8} {ba : ByteArray} {c : Conn} (hc : c.available = []) {len : ℤ}
    {s' : ByteArray × Conn} (h : streamRead n junk ba c = (.ok len, s')) : len ≤ 0 := by
  unfold streamRead at h
  split_ifs at h
  · cases h
    decide
  · split at h
    · cases h
    · rename_i iovs ba' hbuf
      rcases hread : c.read (iovs.map Iovec.len).sum with ⟨rt, bs, c'⟩
      have hrt : rt ≤ 0 := by
        by_contra hpos
        obtain ⟨-, hbs, -, happ⟩ := read_pos hread (by omega)
        rw [hc] at happ
        have hlen := congrArg List.length happ
        rw [List.length_append, List.length_nil] at hlen
        omega
      rw [hread] at h
      dsimp only at h
      rw [if_neg (by omega)] at h
      cases h
      exact hrt

/-- a call of `read` into a `ByteArray` -/
def readArrayCall (junk : ℕ → UInt8) (s : ByteArray × Conn) (n : ℕ) : Except Err ℤ × ByteArray × Conn :=
  streamRead n junk s.1 s.2

/-- a call of `write` from a `ByteArray` -/
def writeArrayCall (junk : ℕ → UInt8) (s : ByteArray × Out) (n : ℕ) : Except Err ℤ × ByteArray × Out :=
  streamWrite n junk s.1 s.2

section
variable {length : ℕ} (hlength : length < 2 ^ 64) {ba : ByteArray} (hinv : ByteArray.Inv ba) (junk : ℕ → UInt8)
include hlength hinv

/-- `readFixSize` into a `ByteArray` -/
theorem readFixSizeByteArray_results (c : Conn) {rt : ℤ}
    (h : (ByteArray.readFixSize length junk ba c).1 = .ok rt) :
    ∃ results, Within length results ∧ (readFixSizeByteArray length results).1 = rt := by
  let run : ByteArray × Conn → ℤ → Except Err ℤ := fun s left =>
    (ByteArray.readFixSizeLoop length junk left s.1 s.2).1
  have hcall : ∀ (s : ByteArray × Conn) n len s', ByteArray.Inv s.1 → 0 < n →
      readArrayCall junk s n = (.ok len, s') → len ≤ n ∧ (0 < len → ByteArray.Inv s'.1) := by
    rintro ⟨ba, c⟩ n len s' hs hn heq
    dsimp only at hs heq
    by_cases hc : c.available = []
    · have hle : len ≤ 0 := streamRead_nonpos hc heq
      exact ⟨by omega, fun hpos => absurd hpos (by omega)⟩
    · obtain ⟨bs, ba', c', hread, -, hle, -, hinv', -⟩ := ByteArray.streamRead_spec hs hn junk hc
      rw [readArrayCall, hread] at heq
      cases heq
      exact ⟨by omega, fun _ => hinv'⟩
  have hrun : LoopsOver (readArrayCall junk) run length := by
    rintro ⟨ba, c⟩ left
    dsimp only [run]
    rw [ByteArray.readFixSizeLoop]
    split_ifs with hleft
    · rcases hcalled : streamRead left.toNat junk ba c with ⟨e | len, ba', c'⟩
      · simp only [readArrayCall, hcalled, afterCall]
      · simp only [readArrayCall, hcalled, afterCall]
        split_ifs
        · rfl
        · rfl
    · rfl
  have hself : run (ba, c) (toInt64 length) = .ok rt := h
  exact exists_results hcall hrun hlength hinv hself

/-- `writeFixSize` from a `ByteArray` -/
theorem writeFixSizeByteArray_results (o : Out) {rt : ℤ}
    (h : (ByteArray.writeFixSize length junk ba o).1 = .ok rt) :
    ∃ results, Within length results ∧ (writeFixSizeByteArray length results).1 = rt := by
  let run : ByteArray × Out → ℤ → Except Err ℤ := fun s left =>
    (ByteArray.writeFixSizeLoop length junk left s.1 s.2).1
  have hcall : ∀ (s : ByteArray × Out) n len s', ByteArray.Inv s.1 → 0 < n →
      writeArrayCall junk s n = (.ok len, s') → len ≤ n ∧ (0 < len → ByteArray.Inv s'.1) := by
    rintro ⟨ba, o⟩ n len s' hs - heq
    obtain ⟨rt, m, ba', o', hwrite, hwrote, hm, hrt, -⟩ := ByteArray.streamWrite_spec hs n junk o
    rw [writeArrayCall, hwrite] at heq
    cases heq
    have hle := hm.trans (min_le_left n maxRead)
    exact ⟨by omega, fun _ => hwrote.inv⟩
  have hrun : LoopsOver (writeArrayCall junk) run length := by
    rintro ⟨ba, o⟩ left
    dsimp only [run]
    rw [ByteArray.writeFixSizeLoop]
    split_ifs with hleft
    · rcases hcalled : streamWrite left.toNat junk ba o with ⟨e | len, ba', o'⟩
      · simp only [writeArrayCall, hcalled, afterCall]
      · simp only [writeArrayCall, hcalled, afterCall]
        split_ifs
        · rfl
        · rfl
    · rfl
  have hself : run (ba, o) (toInt64 length) = .ok rt := h
  exact exists_results hcall hrun hlength hinv hself

end

end Sylar.FixSize
