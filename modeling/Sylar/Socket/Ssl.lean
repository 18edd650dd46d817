/-
`SSLSocket::send` and `recv` for a list of buffers (`socket.cpp`), and `SocketStream` over them (`socket_stream.cpp`).

Both run over the buffers with one `SSL_write` or `SSL_read` each, and stop at a call that does not do all it was
asked for. A call that fails makes the whole function return its result, also when earlier buffers went through: these
bytes are lost to the caller, who moves its cursor by what is returned.

What the calls of OpenSSL return is a sequence; a call is asked for `(int)iov_len` bytes and does no more. An `int`
sum that is too large is undefined.

- `sslLoop_spec`: the loop, by the bytes that go through (`passed`) and the calls that fail (`Fails`).
- `lossless_iff`: the result is the number of bytes that went through iff no call fails behind one that did all, and
  the number is an `int`.
- `pieces_loop`, `not_skips`: what the calls reach is the regions for these bytes, without a gap, iff no buffer longer
  than an `int` can say is followed by another one.
- `straight_of_kept`, `kept_of_straight`: then, and only then, the cursor of a `ByteArray` moves over the bytes that
  go through.
- `ssl_no_loss_iff`: all of this for both directions.
- `send_then_fail`: a second buffer that the peer does not take.
-/
import Mathlib.Tactic
import Sylar.ByteArray.Scatter
import Sylar.Http.Stream

namespace Sylar.SSLSocket

open Sylar.Core Sylar.Http Sylar.ByteArray

/-! ## The loop -/

/-- `SSL_write` or `SSL_read` of `num` bytes, which returns `r` if that is not too many -/
def sslCall (num r : ℤ) : ℤ := min r (max num 0)

/-- the loop of `send` and `recv` over buffers of these lengths, from call `i` on: the result, and those of the calls
-/
def sslLoop (rs : ℕ → ℤ) : ℕ → List ℕ → ℤ → Except Stop ℤ × List ℤ
  | _, [], total => (.ok total, [])
  | i, len :: lens, total =>
    let tmp := sslCall (toInt32 len) (rs i)
    if tmp ≤ 0 then (.ok tmp, [tmp])
    else if 2147483647 < total + tmp then (.error .undefined, [tmp])
    else if tmp ≠ toInt32 len then (.ok (total + tmp), [tmp])
    else
      let r := sslLoop rs (i + 1) lens (total + tmp)
      (r.1, tmp :: r.2)

/-- `SSLSocket::send(iovec)`, where `SSL_write` returns `rs`; `ssl` if there is an `m_ssl` -/
def send (ssl : Bool) (rs : ℕ → ℤ) (lens : List ℕ) : Except Stop ℤ × List ℤ :=
  if !ssl then (.ok (-1), []) else sslLoop rs 0 lens 0

/-- `SSLSocket::recv(iovec)`, where `SSL_read` returns `rs` -/
def recv (ssl : Bool) (rs : ℕ → ℤ) (lens : List ℕ) : Except Stop ℤ × List ℤ :=
  if !ssl then (.ok (-1), []) else sslLoop rs 0 lens 0

/-! ## What goes through -/

/-- the bytes of the calls that succeed -/
def moved (calls : List ℤ) : ℤ := (calls.filter (0 < ·)).sum

/-- the call does all it is asked for -/
def Full (rs : ℕ → ℤ) (i len : ℕ) : Prop := 0 < toInt32 len ∧ toInt32 len ≤ rs i

instance (rs : ℕ → ℤ) (i len : ℕ) : Decidable (Full rs i len) := inferInstanceAs (Decidable (_ ∧ _))

/-- the results of the calls, up to the first that does not do all -/
def calls (rs : ℕ → ℤ) : ℕ → List ℕ → List ℤ
  | _, [] => []
  | i, len :: lens => sslCall (toInt32 len) (rs i) :: if Full rs i len then calls rs (i + 1) lens else []

/-- the bytes that OpenSSL takes or brings -/
def passed (rs : ℕ → ℤ) (i : ℕ) (lens : List ℕ) : ℤ := moved (calls rs i lens)

/-- the loop comes to a call that fails -/
inductive Fails (rs : ℕ → ℤ) : ℕ → List ℕ → Prop
  | here {i len : ℕ} {lens : List ℕ} (h : sslCall (toInt32 len) (rs i) ≤ 0) : Fails rs i (len :: lens)
  | later {i len : ℕ} {lens : List ℕ} (hfull : Full rs i len) (h : Fails rs (i + 1) lens) : Fails rs i (len :: lens)

/-- a call fails behind one that did all -/
def FailsLate (rs : ℕ → ℤ) : List ℕ → Prop
  | [] => False
  | len :: lens => Full rs 0 len ∧ Fails rs 1 lens

section
variable {rs : ℕ → ℤ} {i len : ℕ} {lens : List ℕ}

theorem full_iff : Full rs i len ↔ 0 < sslCall (toInt32 len) (rs i) ∧ sslCall (toInt32 len) (rs i) = toInt32 len := by
  unfold Full sslCall
  omega

theorem moved_nonneg (calls : List ℤ) : 0 ≤ moved calls := by
  apply List.sum_nonneg
  intro x hx
  exact (of_decide_eq_true (List.mem_filter.mp hx).2).le

theorem moved_cons_of_pos {tmp : ℤ} (h : 0 < tmp) (calls : List ℤ) : moved (tmp :: calls) = tmp + moved calls := by
  rw [moved, List.filter_cons_of_pos (by simpa using h), List.sum_cons, moved]

theorem moved_cons_of_nonpos {tmp : ℤ} (h : tmp ≤ 0) (calls : List ℤ) : moved (tmp :: calls) = moved calls := by
  rw [moved, List.filter_cons_of_neg (by simpa using h), moved]

theorem passed_nil (rs : ℕ → ℤ) (i : ℕ) : passed rs i [] = 0 := rfl

theorem passed_fail (h : sslCall (toInt32 len) (rs i) ≤ 0) : passed rs i (len :: lens) = 0 := by
  have hfull : ¬Full rs i len := fun hf => absurd (full_iff.mp hf).1 (not_lt.mpr h)
  rw [passed, calls, if_neg hfull, moved_cons_of_nonpos h]
  rfl

theorem passed_part (h : 0 < sslCall (toInt32 len) (rs i)) (hfull : ¬Full rs i len) :
    passed rs i (len :: lens) = sslCall (toInt32 len) (rs i) := by
  rw [passed, calls, if_neg hfull, moved_cons_of_pos h]
  exact Int.add_zero _

theorem passed_full (hfull : Full rs i len) :
    passed rs i (len :: lens) = sslCall (toInt32 len) (rs i) + passed rs (i + 1) lens := by
  rw [passed, calls, if_pos hfull, moved_cons_of_pos (full_iff.mp hfull).1, passed]

theorem not_fails_nil : ¬Fails rs i [] := by
  intro h
  cases h

/-- a call that did all decides nothing -/
theorem fails_cons_of_full (hfull : Full rs i len) : Fails rs i (len :: lens) ↔ Fails rs (i + 1) lens := by
  constructor
  · intro h
    cases h with
    | here h => exact absurd (full_iff.mp hfull).1 (not_lt.mpr h)
    | later _ h => exact h
  · exact .later hfull

theorem not_fails_of_part (h : 0 < sslCall (toInt32 len) (rs i)) (hfull : ¬Full rs i len) :
    ¬Fails rs i (len :: lens) := by
  intro hf
  cases hf with
  | here hle => exact absurd h (not_lt.mpr hle)
  | later hf _ => exact hfull hf

/-- **The loop.** As long as the sum is an `int`, the loop makes the calls, and the result is the sum of what they did
or that of a call that failed. -/
theorem sslLoop_spec (rs : ℕ → ℤ) (i : ℕ) (lens : List ℕ) (total : ℤ) (hint : total ≤ 2147483647) :
    (total + passed rs i lens ≤ 2147483647 → (sslLoop rs i lens total).2 = calls rs i lens ∧
      (Fails rs i lens → ∃ v ≤ 0, (sslLoop rs i lens total).1 = .ok v) ∧
      (¬Fails rs i lens → (sslLoop rs i lens total).1 = .ok (total + passed rs i lens))) ∧
      (2147483647 < total + passed rs i lens → (sslLoop rs i lens total).1 = .error .undefined) := by
  induction lens generalizing i total with
  | nil =>
    rw [passed_nil, sslLoop, Int.add_zero]
    exact ⟨fun _ => ⟨rfl, fun h => absurd h not_fails_nil, fun _ => rfl⟩, fun hbig => absurd hint (not_le.mpr hbig)⟩
  | cons len lens ih =>
    have hrest := moved_nonneg (calls rs (i + 1) lens)
    rw [sslLoop]
    dsimp only
    by_cases hfail : sslCall (toInt32 len) (rs i) ≤ 0
    · have hfull : ¬Full rs i len := fun h => absurd (full_iff.mp h).1 (not_lt.mpr hfail)
      rw [if_pos hfail, passed_fail hfail, calls, if_neg hfull, Int.add_zero]
      exact ⟨fun _ => ⟨rfl, fun _ => ⟨_, hfail, rfl⟩, fun h => absurd (.here hfail) h⟩,
        fun hbig => absurd hint (not_le.mpr hbig)⟩
    have hpos : 0 < sslCall (toInt32 len) (rs i) := not_le.mp hfail
    rw [if_neg hfail]
    by_cases hfull : Full rs i len
    · rw [passed_full hfull, passed, calls, if_pos hfull, fails_cons_of_full hfull, ← Int.add_assoc]
      by_cases hover : 2147483647 < total + sslCall (toInt32 len) (rs i)
      · rw [if_pos hover]
        exact ⟨fun hfit => by omega, fun _ => rfl⟩
      rw [if_neg hover, if_neg (not_not.mpr (full_iff.mp hfull).2)]
      obtain ⟨hfit, hbig⟩ := ih (i + 1) _ (not_lt.mp hover)
      refine ⟨fun h => ?_, hbig⟩
      obtain ⟨hcalls, hfails, hok⟩ := hfit h
      exact ⟨by rw [hcalls], hfails, hok⟩
    · have hpart : sslCall (toInt32 len) (rs i) ≠ toInt32 len := fun h => hfull (full_iff.mpr ⟨hpos, h⟩)
      rw [passed_part hpos hfull, calls, if_neg hfull]
      by_cases hover : 2147483647 < total + sslCall (toInt32 len) (rs i)
      · rw [if_pos hover]
        exact ⟨fun hfit => absurd hover (not_lt.mpr hfit), fun _ => rfl⟩
      rw [if_neg hover, if_pos hpart]
      exact ⟨fun _ => ⟨rfl, fun h => absurd h (not_fails_of_part hpos hfull), fun _ => rfl⟩,
        fun hbig => absurd hbig hover⟩

/-! ## The result -/

/-- the result is the number of bytes that went through if that is positive, and at most 0 only if none did -/
def Lossless (r : Except Stop ℤ × List ℤ) : Prop :=
  ∃ v, r.1 = .ok v ∧ (0 < moved r.2 → v = moved r.2) ∧ (v ≤ 0 → moved r.2 = 0)

/-- no call fails behind one that did all, and the bytes in all are an `int` -/
def Steady (rs : ℕ → ℤ) (lens : List ℕ) : Prop := ¬FailsLate rs lens ∧ passed rs 0 lens ≤ 2147483647

/-- with a call that fails, something went through iff it fails late -/
theorem passed_pos_iff (h : Fails rs 0 lens) : 0 < passed rs 0 lens ↔ FailsLate rs lens := by
  cases h with
  | here hfail =>
    rw [passed_fail hfail, FailsLate]
    exact iff_of_false (lt_irrefl 0) (fun h => absurd (full_iff.mp h.1).1 (not_lt.mpr hfail))
  | later hfull hrest =>
    next len' lens' =>
    have hpos := (full_iff.mp hfull).1
    have hnonneg := moved_nonneg (calls rs (0 + 1) lens')
    rw [passed_full hfull, passed, FailsLate]
    exact iff_of_true (by omega) ⟨hfull, hrest⟩

theorem FailsLate.fails (h : FailsLate rs lens) : Fails rs 0 lens := by
  cases lens with
  | nil => exact absurd h id
  | cons len lens => exact .later h.1 h.2

/-- **Send and receive** without loss, exactly -/
theorem lossless_loop_iff (rs : ℕ → ℤ) (lens : List ℕ) : Lossless (sslLoop rs 0 lens 0) ↔ Steady rs lens := by
  obtain ⟨hfit, hbig⟩ := sslLoop_spec rs 0 lens 0 (by norm_num)
  rw [Int.zero_add] at hfit hbig
  by_cases hint : passed rs 0 lens ≤ 2147483647
  swap
  · refine iff_of_false ?_ (fun h => hint h.2)
    rintro ⟨v, hv, -⟩
    rw [hbig (not_le.mp hint)] at hv
    cases hv
  obtain ⟨hcalls, hfails, hok⟩ := hfit hint
  have hmoved : moved (sslLoop rs 0 lens 0).2 = passed rs 0 lens := by rw [hcalls, passed]
  have hnonneg : 0 ≤ passed rs 0 lens := moved_nonneg _
  by_cases hf : Fails rs 0 lens
  · obtain ⟨v, hv, hr⟩ := hfails hf
    have hlate := passed_pos_iff hf
    constructor
    · rintro ⟨w, hw, heq, -⟩
      refine ⟨fun h => ?_, hint⟩
      have hpos := hlate.mpr h
      rw [hr] at hw
      have hvw : v = w := Except.ok.inj hw
      have := heq (by omega)
      omega
    · rintro ⟨hlate', -⟩
      have hzero : ¬0 < passed rs 0 lens := fun h => hlate' (hlate.mp h)
      exact ⟨v, hr, by omega, by omega⟩
  · refine iff_of_true ⟨_, hok hf, fun _ => hmoved.symm, fun h => ?_⟩ ⟨fun h => hf h.fails, hint⟩
    omega

/-- without an `m_ssl` nothing goes through -/
theorem lossless_closed : Lossless (.ok (-1), []) := ⟨-1, rfl, fun h => absurd h (lt_irrefl 0), fun _ => rfl⟩

/-- both directions, at any list of buffers -/
theorem lossless_iff (ssl : Bool) (rs : ℕ → ℤ) (lens : List ℕ) :
    (Lossless (send ssl rs lens) ↔ (ssl = true → Steady rs lens)) ∧
      (Lossless (recv ssl rs lens) ↔ (ssl = true → Steady rs lens)) := by
  cases ssl with
  | false =>
    have hclosed : Lossless (.ok (-1), []) ↔ (false = true → Steady rs lens) :=
      iff_of_true lossless_closed (fun h => absurd h Bool.false_ne_true)
    exact ⟨hclosed, hclosed⟩
  | true =>
    have hloop : Lossless (sslLoop rs 0 lens 0) ↔ (true = true → Steady rs lens) := by
      rw [lossless_loop_iff]
      exact ⟨fun h _ => h, fun h => h rfl⟩
    exact ⟨hloop, hloop⟩

end

/-! ## Streams -/

/-- the parts of the regions that the calls reach -/
def pieces (iovs : List Iovec) (calls : List ℤ) : List Iovec :=
  List.zipWith (fun v tmp => { v with len := tmp.toNat }) iovs calls

/-- what comes of a `read(ba, len)` or `write(ba, len)`: the result, the array, the parts of it that OpenSSL stores
into or takes from, and the bytes it brings or takes -/
structure Transfer where
  result : Except (Err ⊕ Stop) ℤ
  ba : ByteArray
  pieces : List Iovec
  bytes : List UInt8

/-- the cursor moves by a positive `rt`, which is returned -/
def advance (rt : Except Stop ℤ) (ba : ByteArray) (pieces : List Iovec) (bytes : List UInt8) : Transfer :=
  match rt with
  | .error s => ⟨.error (.inr s), ba, pieces, bytes⟩
  | .ok rt =>
    if 0 < rt then
      match setPosition (ba.position + rt.toNat) ba with
      | (.error e, ba) => ⟨.error (.inl e), ba, pieces, bytes⟩
      | (.ok (), ba) => ⟨.ok rt, ba, pieces, bytes⟩
    else ⟨.ok rt, ba, pieces, bytes⟩

/-- `SocketStream::read(ba, len)`, where the peer sends `data` -/
def streamRead (connected ssl : Bool) (rs : ℕ → ℤ) (data : ℕ → UInt8) (len : ℕ) (junk : ℕ → UInt8) (ba : ByteArray) :
    Transfer :=
  if !connected then ⟨.ok (-1), ba, [], []⟩
  else
    match getWriteBuffers len junk ba with
    | (.error e, ba) => ⟨.error (.inl e), ba, [], []⟩
    | (.ok (_, iovs), ba) =>
      let (rt, calls) := recv ssl rs (iovs.map Iovec.len)
      let bytes := (List.range (moved calls).toNat).map data
      advance rt (ba.fill (pieces iovs calls) bytes) (pieces iovs calls) bytes

/-- `SocketStream::write(ba, len)` -/
def streamWrite (connected ssl : Bool) (rs : ℕ → ℤ) (len : ℕ) (junk : ℕ → UInt8) (ba : ByteArray) : Transfer :=
  if !connected then ⟨.ok (-1), ba, [], []⟩
  else
    match getWriteBuffers len junk ba with
    | (.error e, ba) => ⟨.error (.inl e), ba, [], []⟩
    | (.ok (_, iovs), ba) =>
      let (rt, calls) := send ssl rs (iovs.map Iovec.len)
      advance rt ba (pieces iovs calls) ((pieces iovs calls).flatMap (iovBytes ba.nodes))

/-- the cursor moves over the addresses that OpenSSL stores into or takes from, which hold its bytes -/
def Kept (ba : ByteArray) (t : Transfer) : Prop :=
  ∃ v n, t.result = .ok v ∧ t.pieces.flatMap (Iovec.addresses ba.baseSize) = List.range' ba.position n ∧
    t.ba.position = ba.position + n ∧ t.bytes = (t.ba.mem.drop ba.position).take n

/-- the lengths of the regions for `len` bytes, from offset `npos` of a block of `b` bytes on -/
def regionLens (b npos len : ℕ) : List ℕ :=
  if len = 0 then []
  else if len ≤ b - npos ∨ b ≤ npos then [len]
  else (b - npos) :: regionLens b 0 (len - (b - npos))
termination_by len
decreasing_by omega

/-- a call does all it is asked for, but not all of its buffer, and is followed by another one -/
inductive Skips (rs : ℕ → ℤ) : ℕ → List ℕ → Prop
  | here {i len : ℕ} {lens : List ℕ} (hfull : Full rs i len) (hint : toInt32 len ≠ len) (hne : lens ≠ []) :
      Skips rs i (len :: lens)
  | later {i len : ℕ} {lens : List ℕ} (hfull : Full rs i len) (h : Skips rs (i + 1) lens) : Skips rs i (len :: lens)

/-- no call fails late, the bytes in all are an `int`, and none is left out in between -/
def Straight (rs : ℕ → ℤ) (lens : List ℕ) : Prop := Steady rs lens ∧ ¬Skips rs 0 lens

section
variable {rs : ℕ → ℤ} {k i b npos len n : ℕ} {lens : List ℕ} {c : List Node} {iovs : List Iovec}

/-- the first region starts at the cursor -/
theorem iovLoop_head (h : iovLoop c i npos len = some iovs) : ∃ l vs, iovs = ⟨i, npos, l⟩ :: vs := by
  cases c with
  | nil => cases h
  | cons nd rest =>
    rw [iovLoop] at h
    split_ifs at h with hge
    · exact ⟨len, [], (Option.some.inj h).symm⟩
    · obtain ⟨r, -, rfl⟩ := Option.map_eq_some_iff.mp h
      exact ⟨_, r, rfl⟩

theorem iovLoop_lens (hc : Sized b c) (hn : npos < b) (hlen : len ≠ 0) (h : iovLoop c i npos len = some iovs) :
    iovs.map Iovec.len = regionLens b npos len := by
  induction c generalizing i npos len iovs with
  | nil => cases h
  | cons nd rest ih =>
    have hsz : nd.size = b := hc nd List.mem_cons_self
    rw [iovLoop, hsz] at h
    rw [regionLens, if_neg hlen]
    split_ifs at h with hge
    · rw [if_pos (.inl hge), ← Option.some.inj h]
      rfl
    · obtain ⟨r, hr, rfl⟩ := Option.map_eq_some_iff.mp h
      rw [if_neg (by omega), List.map_cons, ih hc.tail (by omega) (by omega) hr]

theorem sslLoop_length (rs : ℕ → ℤ) (k : ℕ) (lens : List ℕ) (total : ℤ) :
    (sslLoop rs k lens total).2.length ≤ lens.length := by
  induction lens generalizing k total with
  | nil => exact le_rfl
  | cons len lens ih =>
    rw [sslLoop, List.length_cons]
    dsimp only
    split_ifs
    · exact Nat.succ_le_succ (Nat.zero_le _)
    · exact Nat.succ_le_succ (Nat.zero_le _)
    · exact Nat.succ_le_succ (Nat.zero_le _)
    · exact Nat.succ_le_succ (ih (k + 1) _)

theorem pieces_cons (v : Iovec) (iovs : List Iovec) (tmp : ℤ) (calls : List ℤ) :
    pieces (v :: iovs) (tmp :: calls) = ⟨v.node, v.off, tmp.toNat⟩ :: pieces iovs calls := rfl

theorem pieces_nil (iovs : List Iovec) : pieces iovs [] = [] := List.zipWith_nil_right

theorem pieces_length (b : ℕ) {calls : List ℤ} (h : calls.length ≤ iovs.length) :
    ((pieces iovs calls).flatMap (Iovec.addresses b)).length = (moved calls).toNat := by
  induction calls generalizing iovs with
  | nil =>
    rw [pieces_nil]
    rfl
  | cons tmp calls ih =>
    cases iovs with
    | nil => exact absurd h (Nat.not_succ_le_zero _)
    | cons v iovs =>
      have hnonneg := moved_nonneg calls
      rw [pieces_cons, List.flatMap_cons, List.length_append, ih (Nat.le_of_succ_le_succ h), Iovec.addresses,
        List.length_range']
      by_cases hpos : 0 < tmp
      · rw [moved_cons_of_pos hpos]
        exact (Int.toNat_add hpos.le hnonneg).symm
      · rw [moved_cons_of_nonpos (not_lt.mp hpos), Int.toNat_of_nonpos (not_lt.mp hpos), Nat.zero_add]

theorem loop_pieces_length (b : ℕ) (rs : ℕ → ℤ) (iovs : List Iovec) :
    ((pieces iovs (sslLoop rs 0 (iovs.map Iovec.len) 0).2).flatMap (Iovec.addresses b)).length =
      (moved (sslLoop rs 0 (iovs.map Iovec.len) 0).2).toNat := by
  apply pieces_length
  exact (sslLoop_length rs 0 _ 0).trans (List.length_map _).le

/-- without a call that fails, something goes through -/
theorem passed_pos (hne : lens ≠ []) (h : ¬Fails rs k lens) : 0 < passed rs k lens := by
  cases lens with
  | nil => exact absurd rfl hne
  | cons len lens =>
    have hpos : 0 < sslCall (toInt32 len) (rs k) := not_le.mp fun hle => h (.here hle)
    have hnonneg := moved_nonneg (calls rs (k + 1) lens)
    by_cases hfull : Full rs k len
    · rw [passed_full hfull, passed]
      omega
    · rw [passed_part hpos hfull]
      exact hpos

theorem iovLoop_ne_nil (h : iovLoop c i npos len = some iovs) : iovs ≠ [] := by
  obtain ⟨l, vs, rfl⟩ := iovLoop_head h
  exact List.cons_ne_nil _ _

theorem part_le (h : 0 < sslCall (toInt32 len) (rs k)) : (sslCall (toInt32 len) (rs k)).toNat ≤ len := by
  have hle : sslCall (toInt32 len) (rs k) ≤ max (toInt32 len) 0 := min_le_right _ _
  have hint : toInt32 len ≤ len := toInt32_le (Int.natCast_nonneg len)
  omega

/-- **The pieces.** Where nothing is left out in between, they are the regions for the bytes that go through. -/
theorem pieces_loop (hc : Sized b c) (h : iovLoop c i npos len = some iovs) (hok : ¬Fails rs k (iovs.map Iovec.len))
    (hs : ¬Skips rs k (iovs.map Iovec.len)) :
    iovLoop c i npos (passed rs k (iovs.map Iovec.len)).toNat =
      some (pieces iovs (calls rs k (iovs.map Iovec.len))) := by
  induction c generalizing i npos len iovs k with
  | nil => cases h
  | cons nd rest ih =>
    have hsz : nd.size = b := hc nd List.mem_cons_self
    rw [iovLoop, hsz] at h ⊢
    split_ifs at h with hge
    · obtain rfl := Option.some.inj h
      rw [List.map_cons, List.map_nil] at hok ⊢
      have hpos : 0 < sslCall (toInt32 len) (rs k) := not_le.mp fun hle => hok (.here hle)
      have hle := part_le hpos
      have hpassed : passed rs k [len] = sslCall (toInt32 len) (rs k) := by
        by_cases hfull : Full rs k len
        · rw [passed_full hfull, passed_nil, Int.add_zero]
        · exact passed_part hpos hfull
      have hcalls : calls rs k [len] = [sslCall (toInt32 len) (rs k)] := by
        rw [calls]
        split_ifs <;> rfl
      rw [hpassed, hcalls, if_pos (by omega)]
      rfl
    · obtain ⟨r, hr, rfl⟩ := Option.map_eq_some_iff.mp h
      have hne : r.map Iovec.len ≠ [] := fun hnil => iovLoop_ne_nil hr (List.map_eq_nil_iff.mp hnil)
      rw [List.map_cons] at hok hs ⊢
      dsimp only at hok hs ⊢
      have hpos : 0 < sslCall (toInt32 ↑(b - npos)) (rs k) := not_le.mp fun hle => hok (.here hle)
      have hle := part_le hpos
      rw [calls, pieces_cons]
      by_cases hfull : Full rs k (b - npos)
      · have hint : toInt32 ↑(b - npos) = ↑(b - npos) := by
          by_contra hint
          exact hs (.here hfull hint hne)
        have hrest : ¬Fails rs (k + 1) (r.map Iovec.len) := fun hf => hok (.later hfull hf)
        have hmore := passed_pos hne hrest
        have htmp : sslCall (toInt32 ↑(b - npos)) (rs k) = ↑(b - npos) := (full_iff.mp hfull).2.trans hint
        have ih := ih hc.tail hr hrest (fun hskip => hs (.later hfull hskip))
        rw [passed_full hfull, if_pos hfull, htmp, Int.toNat_add (Int.natCast_nonneg _) hmore.le, Int.toNat_natCast,
          if_neg (by omega), Nat.add_sub_cancel_left, ih]
        rfl
      · rw [passed_part hpos hfull, if_neg hfull, if_pos (by omega), pieces_nil]

theorem range'_eq_append {a m n : ℕ} {l : List ℕ} (h : List.range' a m ++ l = List.range' a n) :
    l = List.range' (a + m) l.length := by
  have hlen : n = m + l.length := by
    have := congrArg List.length h
    rw [List.length_append, List.length_range', List.length_range'] at this
    exact this.symm
  rw [hlen, ← List.range'_append_1] at h
  exact List.append_cancel_left h

/-- the first piece starts where the loop does -/
theorem pieces_head (h : iovLoop c i npos len = some iovs) (hok : ¬Fails rs k (iovs.map Iovec.len)) :
    ∃ l, (pieces iovs (calls rs k (iovs.map Iovec.len))).flatMap (Iovec.addresses b) = (b * i + npos) :: l := by
  obtain ⟨l, vs, rfl⟩ := iovLoop_head h
  rw [List.map_cons] at hok ⊢
  have hpos : 0 < sslCall (toInt32 l) (rs k) := not_le.mp fun hle => hok (.here hle)
  obtain ⟨m, hm⟩ : ∃ m, (sslCall (toInt32 l) (rs k)).toNat = m + 1 := Nat.exists_eq_succ_of_ne_zero (by omega)
  rw [calls, pieces_cons, List.flatMap_cons, Iovec.addresses]
  dsimp only
  rw [hm, List.range'_succ, List.cons_append]
  exact ⟨_, rfl⟩

/-- pieces without a gap leave nothing out -/
theorem not_skips (hc : Sized b c) (hn : npos ≤ b) (h : iovLoop c i npos len = some iovs)
    (hok : ¬Fails rs k (iovs.map Iovec.len))
    (ha : (pieces iovs (calls rs k (iovs.map Iovec.len))).flatMap (Iovec.addresses b) = List.range' (b * i + npos) n) :
    ¬Skips rs k (iovs.map Iovec.len) := by
  induction c generalizing i npos len iovs k n with
  | nil => cases h
  | cons nd rest ih =>
    have hsz : nd.size = b := hc nd List.mem_cons_self
    rw [iovLoop, hsz] at h
    split_ifs at h with hge
    · obtain rfl := Option.some.inj h
      intro hs
      cases hs with
      | here _ _ hne => exact hne rfl
      | later _ hs => cases hs
    obtain ⟨r, hr, rfl⟩ := Option.map_eq_some_iff.mp h
    have hne : r.map Iovec.len ≠ [] := fun hnil => iovLoop_ne_nil hr (List.map_eq_nil_iff.mp hnil)
    rw [List.map_cons] at hok ha ⊢
    dsimp only at hok ha ⊢
    intro hs
    have hfull : Full rs k (b - npos) := by
      cases hs with
      | here hfull _ _ => exact hfull
      | later hfull _ => exact hfull
    have hrest : ¬Fails rs (k + 1) (r.map Iovec.len) := fun hf => hok (.later hfull hf)
    rw [calls, if_pos hfull, pieces_cons, List.flatMap_cons, Iovec.addresses] at ha
    dsimp only at ha
    -- what follows the first piece starts right behind it, and at the next block
    have hbehind := range'_eq_append ha
    obtain ⟨l, hl⟩ := pieces_head (b := b) hr hrest
    have hpos := (full_iff.mp hfull).1
    have hstart : b * i + npos + (sslCall (toInt32 ↑(b - npos)) (rs k)).toNat = b * (i + 1) + 0 := by
      rw [hl, List.length_cons, List.range'_succ] at hbehind
      exact (List.cons.inj hbehind).1.symm
    have htmp : (sslCall (toInt32 ↑(b - npos)) (rs k)).toNat = b - npos := by
      rw [Nat.mul_succ] at hstart
      omega
    cases hs with
    | here _ hint _ =>
      rw [← (full_iff.mp hfull).2] at hint
      omega
    | later _ hs =>
      rw [hstart] at hbehind
      exact ih hc.tail (Nat.zero_le b) hr hrest hbehind hs

theorem passed_le (rs : ℕ → ℤ) (k : ℕ) (lens : List ℕ) : passed rs k lens ≤ lens.sum := by
  induction lens generalizing k with
  | nil => exact le_rfl
  | cons len lens ih =>
    have hrest := ih (k + 1)
    rw [List.sum_cons, Nat.cast_add]
    by_cases hpos : 0 < sslCall (toInt32 len) (rs k)
    · have hle := part_le hpos
      by_cases hfull : Full rs k len
      · rw [passed_full hfull]
        omega
      · rw [passed_part hpos hfull]
        omega
    · rw [passed_fail (not_lt.mp hpos)]
      omega

theorem Skips.failsLate (hs : Skips rs 0 lens) (hf : Fails rs 0 lens) : FailsLate rs lens := by
  cases hf with
  | here hfail =>
    have hfull : ∀ {len : ℕ}, sslCall (toInt32 len) (rs 0) ≤ 0 → ¬Full rs 0 len := by
      intro len hfail hfull
      exact absurd (full_iff.mp hfull).1 (not_lt.mpr hfail)
    cases hs with
    | here h _ _ => exact absurd h (hfull hfail)
    | later h _ => exact absurd h (hfull hfail)
  | later hfull h => exact ⟨hfull, h⟩

/-- a loop without loss -/
theorem Steady.loop (h : Steady rs lens) :
    ∃ v, sslLoop rs 0 lens 0 = (.ok v, calls rs 0 lens) ∧ v.toNat = (passed rs 0 lens).toNat := by
  obtain ⟨hfit, -⟩ := sslLoop_spec rs 0 lens 0 (by norm_num)
  rw [Int.zero_add] at hfit
  obtain ⟨hcalls, hfails, hok⟩ := hfit h.2
  by_cases hf : Fails rs 0 lens
  · obtain ⟨v, hv, hr⟩ := hfails hf
    have hzero : ¬0 < passed rs 0 lens := fun hpos => h.1 ((passed_pos_iff hf).mp hpos)
    exact ⟨v, Prod.ext hr hcalls, by omega⟩
  · exact ⟨_, Prod.ext (hok hf) hcalls, rfl⟩

variable {ba b1 b2 : ByteArray}

/-- what goes through a straight transfer are the next regions -/
theorem Straight.regions (h : Inv b1) (hr : Regions b1 len iovs) (hs : Straight rs (iovs.map Iovec.len))
    (hpos : 0 < passed rs 0 (iovs.map Iovec.len)) :
    Regions b1 (passed rs 0 (iovs.map Iovec.len)).toNat (pieces iovs (calls rs 0 (iovs.map Iovec.len))) := by
  have hok : ¬Fails rs 0 (iovs.map Iovec.len) := fun hf => hs.1.1 ((passed_pos_iff hf).mp hpos)
  have hloop := pieces_loop h.chain_sized hr.loop hok hs.2
  have hle := passed_le rs 0 (iovs.map Iovec.len)
  have hroom := hr.room
  rw [hr.total] at hle
  obtain ⟨iovs', hr'⟩ : ∃ iovs', Regions b1 (passed rs 0 (iovs.map Iovec.len)).toNat iovs' :=
    exists_regions h (by omega) (by omega)
  rw [Option.some.inj (hloop.symm.trans hr'.loop)]
  exact hr'

theorem getWriteBuffers_lens (h : Inv ba) (len : ℕ) (junk : ℕ → UInt8) :
    ∃ iovs b1, getWriteBuffers len junk ba = (.ok (len, iovs), b1) ∧ Grown len ba b1 ∧
      iovs.map Iovec.len = regionLens ba.baseSize (ba.position % ba.baseSize) len ∧
      (iovs = [] ∨ Regions b1 len iovs) := by
  by_cases hlen : len = 0
  · subst hlen
    refine ⟨[], ba, by rw [getWriteBuffers, if_pos rfl], ⟨h, rfl, rfl, rfl, rfl, ⟨[], by simp⟩, h.pos_le_cap⟩, ?_,
      .inl rfl⟩
    rw [regionLens, if_pos rfl]
    rfl
  · obtain ⟨iovs, b1, h1, grown, hr⟩ := getWriteBuffers_regions h (Nat.one_le_iff_ne_zero.mpr hlen) junk
    refine ⟨iovs, b1, h1, grown, ?_, .inr hr⟩
    rw [iovLoop_lens grown.inv.chain_sized grown.inv.mod_lt hlen hr.loop, grown.base, grown.pos]

theorem setPosition_position {v : ℕ} (h : setPosition v b1 = (.ok (), b2)) : b2.position = v := by
  rw [setPosition] at h
  by_cases hcap : v > b1.capacity
  · rw [if_pos hcap] at h
    cases h
  · rw [if_neg hcap] at h
    dsimp only at h
    split at h
    · cases h
    · rw [← (Prod.mk.inj h).2]

theorem advance_pieces (rt : Except Stop ℤ) (ba : ByteArray) (iovs : List Iovec) (bytes : List UInt8) :
    (advance rt ba iovs bytes).pieces = iovs := by
  cases rt with
  | error s => rfl
  | ok rt =>
    rw [advance]
    split_ifs
    · rcases setPosition (ba.position + rt.toNat) ba with ⟨e | u, b2⟩ <;> rfl
    · rfl

/-- the cursor moves by the result -/
theorem advance_ok {rt : Except Stop ℤ} {bytes : List UInt8} {v : ℤ} (h : (advance rt b1 iovs bytes).result = .ok v) :
    rt = .ok v ∧ (advance rt b1 iovs bytes).ba.position = b1.position + v.toNat := by
  cases rt with
  | error s => cases h
  | ok rt =>
    rw [advance] at h ⊢
    by_cases hpos : 0 < rt
    · rw [if_pos hpos] at h ⊢
      rcases hset : setPosition (b1.position + rt.toNat) b1 with ⟨e | u, b3⟩
      · rw [hset] at h
        cases h
      · rw [hset] at h
        cases h
        exact ⟨rfl, setPosition_position hset⟩
    · rw [if_neg hpos] at h ⊢
      cases h
      exact ⟨rfl, by rw [Int.toNat_of_nonpos (not_lt.mp hpos), Nat.add_zero]⟩

/-- a transfer of `n` bytes, that lie behind the cursor -/
theorem kept_advance {bytes : List UInt8} {v : ℤ} (hv : v.toNat = n) (hp : b1.position = ba.position)
    (ha : iovs.flatMap (Iovec.addresses ba.baseSize) = List.range' ba.position n)
    (hb : bytes = (b1.mem.drop ba.position).take n)
    (hroom : 0 < n → Inv b1 ∧ b1.position + n ≤ b1.capacity) : Kept ba (advance (.ok v) b1 iovs bytes) := by
  rw [advance]
  by_cases hpos : 0 < v
  · obtain ⟨hinv, hcap⟩ := hroom (by omega)
    obtain ⟨b2, h2, -, -, hpos₂, -, hmem₂⟩ := setPosition_spec hinv hcap
    rw [if_pos hpos, hv, h2]
    exact ⟨v, n, rfl, ha, by rw [hpos₂, hp], by rw [hb, hmem₂]⟩
  · have hzero : n = 0 := by omega
    subst hzero
    rw [if_neg hpos]
    exact ⟨v, 0, rfl, ha, hp, hb⟩

/-- a loop that comes to its end made its calls, and the bytes in all are an `int` -/
theorem loop_of_ok {v : ℤ} (h : (sslLoop rs 0 lens 0).1 = .ok v) :
    (sslLoop rs 0 lens 0).2 = calls rs 0 lens ∧ passed rs 0 lens ≤ 2147483647 := by
  obtain ⟨hfit, hbig⟩ := sslLoop_spec rs 0 lens 0 (by norm_num)
  rw [Int.zero_add] at hfit hbig
  have hint : passed rs 0 lens ≤ 2147483647 := by
    by_contra hover
    rw [hbig (not_le.mp hover)] at h
    cases h
  exact ⟨(hfit hint).1, hint⟩

/-- a transfer that keeps its bytes is straight -/
theorem straight_of_kept {bytes : List UInt8} (grown : Grown len ba b1) (hr : iovs = [] ∨ Regions b1 len iovs)
    (hp : b2.position = b1.position) (h : Kept ba (advance (sslLoop rs 0 (iovs.map Iovec.len) 0).1 b2
      (pieces iovs (sslLoop rs 0 (iovs.map Iovec.len) 0).2) bytes)) : Straight rs (iovs.map Iovec.len) := by
  obtain ⟨v, n, hv, ha, hpos, -⟩ := h
  obtain ⟨hrt, hmove⟩ := advance_ok hv
  obtain ⟨hcalls, -⟩ := loop_of_ok hrt
  have hnonneg := moved_nonneg (sslLoop rs 0 (iovs.map Iovec.len) 0).2
  have hlength := loop_pieces_length ba.baseSize rs iovs
  rw [advance_pieces] at ha
  rw [ha, List.length_range'] at hlength
  -- the cursor moves by the result, and by the bytes that went through
  have hvn : v.toNat = n := by
    have hsame := hp.trans grown.pos
    omega
  have hsteady : Steady rs (iovs.map Iovec.len) := by
    apply (lossless_loop_iff rs _).mp
    exact ⟨v, hrt, by omega, by omega⟩
  refine ⟨hsteady, ?_⟩
  intro hskip
  rcases hr with rfl | hr
  · cases hskip
  have hok : ¬Fails rs 0 (iovs.map Iovec.len) := fun hf => hsteady.1 (hskip.failsLate hf)
  refine not_skips (n := n) grown.inv.chain_sized grown.inv.mod_lt.le hr.loop hok ?_ hskip
  rw [grown.inv.curIdx_eq, Nat.div_add_mod, grown.base, grown.pos, ← hcalls]
  exact ha

/-- a straight transfer keeps its bytes, if the array holds them where they are -/
theorem kept_of_straight {bytes : List UInt8} (grown : Grown len ba b1) (hr : iovs = [] ∨ Regions b1 len iovs)
    (hp : b2.position = b1.position)
    (hbytes : bytes.length ≤ (moved (sslLoop rs 0 (iovs.map Iovec.len) 0).2).toNat)
    (hheld : ∀ n, 0 < n → Regions b1 n (pieces iovs (sslLoop rs 0 (iovs.map Iovec.len) 0).2) →
      Inv b2 ∧ b2.capacity = b1.capacity ∧ bytes = (b2.mem.drop b1.position).take n)
    (hs : Straight rs (iovs.map Iovec.len)) :
    Kept ba (advance (sslLoop rs 0 (iovs.map Iovec.len) 0).1 b2
      (pieces iovs (sslLoop rs 0 (iovs.map Iovec.len) 0).2) bytes) := by
  obtain ⟨v, hloop, hv⟩ := hs.1.loop
  have hlength := loop_pieces_length ba.baseSize rs iovs
  rw [hloop] at hheld hbytes hlength ⊢
  have hnonneg : 0 ≤ passed rs 0 (iovs.map Iovec.len) := moved_nonneg _
  by_cases hpos : 0 < passed rs 0 (iovs.map Iovec.len)
  · have hreg : Regions b1 (passed rs 0 (iovs.map Iovec.len)).toNat
        (pieces iovs (calls rs 0 (iovs.map Iovec.len))) := by
      rcases hr with rfl | hr
      · exact absurd hpos (lt_irrefl 0)
      · exact hs.regions grown.inv hr hpos
    obtain ⟨hinv, hcap, hb⟩ := hheld _ (by omega) hreg
    have haddr := hreg.addresses grown.inv
    have hroom := hreg.room
    rw [grown.base, grown.pos] at haddr
    rw [grown.pos] at hb
    refine kept_advance hv (hp.trans grown.pos) haddr hb ?_
    intro _
    exact ⟨hinv, by rw [hp, hcap]; exact hroom⟩
  · have hzero : (passed rs 0 (iovs.map Iovec.len)).toNat = 0 := by omega
    rw [passed] at hzero hv
    dsimp only at hlength hbytes
    rw [hzero] at hlength hv hbytes
    have hnone : bytes = [] := List.eq_nil_of_length_eq_zero (Nat.le_zero.mp hbytes)
    exact kept_advance hv (hp.trans grown.pos) (List.eq_nil_of_length_eq_zero hlength) hnone
      (fun h => absurd h (lt_irrefl 0))

/-- a transfer that makes no call -/
theorem kept_idle {v : ℤ} {ps : List Iovec} (hps : ps = []) (hp : b1.position = ba.position) :
    Kept ba ⟨.ok v, b1, ps, []⟩ := by
  subst hps
  exact ⟨v, 0, rfl, rfl, hp, rfl⟩

theorem iovBytes_length (b : ℕ) (nodes : List Node) (iovs : List Iovec) :
    (iovs.flatMap (iovBytes nodes)).length ≤ (iovs.flatMap (Iovec.addresses b)).length := by
  induction iovs with
  | nil => exact le_rfl
  | cons v iovs ih =>
    have hv : (iovBytes nodes v).length ≤ v.len := by
      rw [iovBytes]
      split
      · exact List.length_take_le _ _
      · exact Nat.zero_le _
    rw [List.flatMap_cons, List.flatMap_cons, List.length_append, List.length_append, Iovec.addresses,
      List.length_range']
    exact Nat.add_le_add hv ih

/-- **Sending** from a `ByteArray` takes the bytes that the cursor moves over -/
theorem kept_write_iff (h : Inv ba) (connected ssl : Bool) (rs : ℕ → ℤ) (len : ℕ) (junk : ℕ → UInt8) :
    Kept ba (streamWrite connected ssl rs len junk ba) ↔
      (connected = true → ssl = true → Straight rs (regionLens ba.baseSize (ba.position % ba.baseSize) len)) := by
  obtain ⟨iovs, b1, h1, grown, hlens, hr⟩ := getWriteBuffers_lens h len junk
  cases connected with
  | false => exact iff_of_true (kept_idle rfl rfl) (fun h => absurd h Bool.false_ne_true)
  | true =>
    rw [streamWrite, h1]
    cases ssl with
    | false =>
      refine iff_of_true ?_ (fun _ h => absurd h Bool.false_ne_true)
      have hnone : (pieces iovs []).flatMap (iovBytes b1.nodes) = [] := by rw [pieces_nil, List.flatMap_nil]
      show Kept ba ⟨.ok (-1), b1, pieces iovs [], (pieces iovs []).flatMap (iovBytes b1.nodes)⟩
      rw [hnone]
      exact kept_idle (pieces_nil iovs) grown.pos
    | true =>
      rw [← hlens, forall_prop_of_true rfl, forall_prop_of_true rfl]
      refine ⟨straight_of_kept grown hr rfl, kept_of_straight grown hr rfl ?_ ?_⟩
      · rw [← loop_pieces_length b1.baseSize]
        exact iovBytes_length _ _ _
      · intro n _ hreg
        exact ⟨grown.inv, rfl, hreg.bytes⟩

/-- a fill is held where it was stored -/
theorem fill_held {bytes : List UInt8} (h : Inv b1) (hr : Regions b1 n iovs) (hlen : bytes.length = n) :
    bytes = ((b1.fill iovs bytes).mem.drop b1.position).take n := by
  have hpos : b1.position ≤ b1.mem.length := by
    rw [h.mem_length]
    exact h.pos_le_cap
  rw [(fill_spec h hr hlen.le).2, drop_splice _ _ _ hpos]
  exact (List.take_left' hlen).symm

/-- **Receiving** into a `ByteArray` stores its bytes where the cursor moves -/
theorem kept_read_iff (h : Inv ba) (connected ssl : Bool) (rs : ℕ → ℤ) (data : ℕ → UInt8) (len : ℕ) (junk : ℕ → UInt8) :
    Kept ba (streamRead connected ssl rs data len junk ba) ↔
      (connected = true → ssl = true → Straight rs (regionLens ba.baseSize (ba.position % ba.baseSize) len)) := by
  obtain ⟨iovs, b1, h1, grown, hlens, hr⟩ := getWriteBuffers_lens h len junk
  cases connected with
  | false => exact iff_of_true (kept_idle rfl rfl) (fun h => absurd h Bool.false_ne_true)
  | true =>
    rw [streamRead, h1]
    cases ssl with
    | false =>
      exact iff_of_true (kept_idle (pieces_nil iovs) grown.pos) (fun _ h => absurd h Bool.false_ne_true)
    | true =>
      rw [← hlens, forall_prop_of_true rfl, forall_prop_of_true rfl]
      have hfill : ∀ (ps : List Iovec) (bs : List UInt8), (b1.fill ps bs).position = b1.position := fun _ _ => rfl
      refine ⟨straight_of_kept grown hr (hfill _ _), kept_of_straight grown hr (hfill _ _) ?_ ?_⟩
      · rw [List.length_map, List.length_range]
      · intro n _ hreg
        have hn := loop_pieces_length b1.baseSize rs iovs
        rw [hreg.addresses grown.inv, List.length_range'] at hn
        have hlen : ((List.range (moved (sslLoop rs 0 (iovs.map Iovec.len) 0).2).toNat).map data).length = n := by
          rw [List.length_map, List.length_range, hn]
        exact ⟨(fill_spec grown.inv hreg hlen.le).1, rfl, fill_held grown.inv hreg hlen⟩

/-- **No loss.** For any buffers and any results of OpenSSL, `send` and `recv` return the number of bytes that went
through iff no call fails behind one that did all and the number is an `int`; and `read` and `write` of a `ByteArray`
move the cursor over just the bytes that went through iff, besides, no buffer that is longer than an `int` can say is
followed by another one. -/
theorem ssl_no_loss_iff (rs : ℕ → ℤ) (ssl : Bool) :
    (∀ lens, (Lossless (send ssl rs lens) ↔ (ssl = true → Steady rs lens)) ∧
      (Lossless (recv ssl rs lens) ↔ (ssl = true → Steady rs lens))) ∧
    ∀ (ba : ByteArray), Reachable ba → ∀ (connected : Bool) (len : ℕ) (junk data : ℕ → UInt8),
      (Kept ba (streamWrite connected ssl rs len junk ba) ↔
        (connected = true → ssl = true → Straight rs (regionLens ba.baseSize (ba.position % ba.baseSize) len))) ∧
      (Kept ba (streamRead connected ssl rs data len junk ba) ↔
        (connected = true → ssl = true → Straight rs (regionLens ba.baseSize (ba.position % ba.baseSize) len))) := by
  refine ⟨lossless_iff ssl rs, ?_⟩
  intro ba h connected len junk data
  exact ⟨kept_write_iff h.inv connected ssl rs len junk, kept_read_iff h.inv connected ssl rs data len junk⟩

/-- three bytes in a block of four, and an OpenSSL that takes them -/
theorem ssl_no_loss_iff_three : Kept threeBytes (streamWrite true true (fun _ => 3) 3 (fun _ => 0) threeBytes) := by
  apply (((ssl_no_loss_iff (fun _ => 3) true).2 threeBytes threeBytes_reachable true 3 (fun _ => 0) fun _ => 0).1).mpr
  intro _ _
  have hlens : regionLens threeBytes.baseSize (threeBytes.position % threeBytes.baseSize) 3 = [3] := by
    rw [regionLens, if_neg (by decide), if_pos (by decide)]
  rw [hlens]
  refine ⟨⟨fun h => not_fails_nil h.2, by decide⟩, ?_⟩
  intro h
  cases h with
  | here _ _ hne => exact hne rfl
  | later _ h => cases h

/-- of two buffers the peer takes the first one, and the second call fails: the result is that of a `send` that sent
nothing, and the cursor stays before the bytes that were sent -/
theorem send_then_fail :
    ¬Lossless (send true (fun i => if i = 0 then 2 else -1) [2, 2]) ∧
      ¬Kept (written [1, 2, 3, 4] 0)
        (streamWrite true true (fun i => if i = 0 then 2 else -1) 4 (fun _ => 0) (written [1, 2, 3, 4] 0)) := by
  constructor
  · have hsend : send true (fun i => if i = 0 then 2 else -1) [2, 2] = (.ok (-1), [2, -1]) := by decide
    rw [hsend]
    rintro ⟨v, hv, h, -⟩
    have htwo : (-1 : ℤ) = 2 := (Except.ok.inj hv).trans (h (by decide))
    exact absurd htwo (by decide)
  · rintro ⟨v, n, -, -, hpos, hbytes⟩
    -- the cursor did not move, two bytes were taken
    have hn : 0 = 0 + n := hpos
    have htwo : ([1, 2] : List UInt8) = List.take n [1, 2, 3, 4] := hbytes
    rw [Nat.zero_add] at hn
    rw [← hn] at htwo
    exact absurd htwo (by decide)

end

end Sylar.SSLSocket
