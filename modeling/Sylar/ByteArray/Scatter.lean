/-
A `ByteArray` filled from a socket and sent to one (`socket_stream.cpp`, `stream.cpp`).

`read(ba, len)` lets the kernel store into the regions of `getWriteBuffers` (`fill`) and then moves the cursor;
`write(ba, len)` hands regions to `sendmsg` and moves the cursor by what was taken. The regions are the addresses from
the cursor on, in order and without gaps (`iovLoop_addresses`), so a fill is one splice of the memory
(`fillNodes_splice`).

What the peer sends is a `Conn`; what a coming `sendmsg` returns is an entry of `Out.accepts`. The limit of the system
on the number of regions is not part of the model.

- `scatter_eq_write`: a fill and a seek are a `write`, and `readFixSize` stores the next bytes of the peer.
- `gather_iff`: `write(ba, len)` sends readable bytes only, whatever the socket takes, if and only if `len` is at most
  `getReadSize()`: it asks `getWriteBuffers`, which makes room for `len` bytes, also where there are fewer to read.
-/
import Mathlib.Tactic
import Sylar.Core.Splice
import Sylar.ByteArray.Model
import Sylar.ByteArray.Invariant
import Sylar.Http.Stream

namespace Sylar.ByteArray

open Sylar.Core Sylar.Http

/-! ## Regions -/

/-- the bytes `bs` stored in the regions, in order -/
def fillNodes : List Node → List Iovec → List UInt8 → List Node
  | nodes, [], _ => nodes
  | nodes, v :: vs, bs => fillNodes (nodes.modify v.node (·.store v.off (bs.take v.len))) vs (bs.drop v.len)

def fill (ba : ByteArray) (iovs : List Iovec) (bs : List UInt8) : ByteArray :=
  { ba with nodes := fillNodes ba.nodes iovs bs }

/-- the array addresses of a region, with blocks of `b` bytes -/
def Iovec.addresses (b : ℕ) (v : Iovec) : List ℕ := List.range' (b * v.node + v.off) v.len

/-- the regions of the loop are the next `len` addresses, in order -/
theorem iovLoop_addresses {b : ℕ} : ∀ {c : List Node} {i npos len : ℕ} {iovs : List Iovec}, Sized b c → npos ≤ b →
    iovLoop c i npos len = some iovs → iovs.flatMap (Iovec.addresses b) = List.range' (b * i + npos) len
  | [], _, _, _, _, _, _, h => by cases h
  | nd :: rest, i, npos, len, iovs, hc, hn, h => by
    have hsz : nd.size = b := hc nd List.mem_cons_self
    simp only [iovLoop, hsz] at h
    split_ifs at h with hge
    · obtain rfl := Option.some.inj h
      simp [Iovec.addresses]
    · obtain ⟨r, hr, rfl⟩ := Option.map_eq_some_iff.mp h
      have hrest := iovLoop_addresses hc.tail (Nat.zero_le b) hr
      rw [List.flatMap_cons, hrest, Iovec.addresses]
      have hnext : b * (i + 1) + 0 = b * i + npos + 1 * (b - npos) := by rw [Nat.mul_add]; omega
      have hlen : len = b - npos + (len - (b - npos)) := by omega
      conv_rhs => rw [hlen]
      rw [hnext, List.range'_append]

theorem modify_middle (pre rest : List Node) (nd : Node) (f : Node → Node) :
    (pre ++ nd :: rest).modify pre.length f = pre ++ f nd :: rest := by
  rw [List.modify_eq_take_drop, List.take_left, List.drop_left]
  rfl

/-- a fill of the regions of the loop is one splice of the memory from the cursor on -/
theorem fillNodes_splice {b : ℕ} :
    ∀ {c : List Node} (pre : List Node) {npos len : ℕ} {iovs : List Iovec} (bs : List UInt8),
    Sized b c → npos ≤ b → iovLoop c pre.length npos len = some iovs → bs.length ≤ len → npos + bs.length ≤ (memOf c).length →
    ∃ c', fillNodes (pre ++ c) iovs bs = pre ++ c' ∧ Sized b c' ∧ c'.length = c.length ∧
      memOf c' = splice (memOf c) npos bs
  | [], _, _, _, _, _, _, _, h, _, _ => by cases h
  | nd :: rest, pre, npos, len, iovs, bs, hc, hn, h, hbs, hroom => by
    have hsz : nd.size = b := hc nd List.mem_cons_self
    have hptr : nd.ptr.length = b := hsz
    have hsized :
        ∀ {x : List UInt8} {c' : List Node}, npos + x.length ≤ b → Sized b c' → Sized b (nd.store npos x :: c') := by
      intro x c' hx hc' y hy
      rcases List.mem_cons.mp hy with rfl | hy
      · rw [Node.size, Node.store, splice_length_of_le _ _ _ (by rw [hptr]; exact hx), hptr]
      · exact hc' y hy
    rw [memOf_cons, List.length_append, hptr] at hroom
    simp only [iovLoop, hsz] at h
    split_ifs at h with hge
    · obtain rfl := Option.some.inj h
      refine ⟨nd.store npos bs :: rest, ?_, hsized (by omega) hc.tail, rfl, ?_⟩
      · simp only [fillNodes, modify_middle, List.take_of_length_le hbs]
      · rw [memOf_cons, memOf_cons, splice_append_left _ _ _ _ (by rw [hptr]; omega)]
        rfl
    · obtain ⟨r, hr, rfl⟩ := Option.map_eq_some_iff.mp h
      have hcut : (bs.take (b - npos)).length ≤ b - npos := List.length_take_le _ _
      have hr' : iovLoop rest (pre ++ [nd.store npos (bs.take (b - npos))]).length 0 (len - (b - npos)) = some r := by
        rw [List.length_append]
        exact hr
      obtain ⟨c', h1, h2, h3, h4⟩ := fillNodes_splice _ (bs.drop (b - npos)) hc.tail (Nat.zero_le b) hr'
        (by rw [List.length_drop]; omega) (by rw [List.length_drop]; omega)
      refine ⟨nd.store npos (bs.take (b - npos)) :: c', ?_, hsized (by omega) h2, by simp [h3], ?_⟩
      · simp only [fillNodes, modify_middle]
        rw [List.append_assoc, List.append_assoc] at h1
        exact h1
      · rw [memOf_cons, memOf_cons, h4]
        by_cases hshort : bs.length ≤ b - npos
        · rw [List.drop_of_length_le hshort, List.take_of_length_le hshort, splice_nil,
            splice_append_left _ _ _ _ (by rw [hptr]; omega)]
          rfl
        · rw [splice_append_cross _ _ _ _ (by rw [hptr]; exact hn) (by rw [hptr]; omega), hptr]
          rfl

/-- what `getWriteBuffers` hands out: the next `len` addresses, all inside the array -/
structure Regions (ba : ByteArray) (len : ℕ) (iovs : List Iovec) : Prop where
  loop : iovLoop ba.chain ba.curIdx (ba.position % ba.baseSize) len = some iovs
  room : ba.position + len ≤ ba.capacity
  total : (iovs.map Iovec.len).sum = len
  bytes : iovs.flatMap (iovBytes ba.nodes) = (ba.mem.drop ba.position).take len

/-- with room for them, the loop finds the next `len` addresses -/
theorem exists_regions {ba : ByteArray} (h : Inv ba) {len : ℕ} (hlen : 1 ≤ len)
    (hroom : ba.position + len ≤ ba.capacity) : ∃ iovs, Regions ba len iovs := by
  obtain ⟨iovs, h1, h2, h3⟩ := iovLoop_eq h.base_pos ba.nodes ba.chain ba.curIdx (ba.position % ba.baseSize) len
    h.chain_sized h.mod_lt (h.chain_ne_nil (by omega)) rfl (by rw [← h.chain_length]; omega)
  exact ⟨iovs, h1, hroom, h3, by rw [h2, h.drop_chain]⟩

theorem getWriteBuffers_regions {ba : ByteArray} (h : Inv ba) {len : ℕ} (hlen : 1 ≤ len) (junk : ℕ → UInt8) :
    ∃ iovs ba', getWriteBuffers len junk ba = (.ok (len, iovs), ba') ∧ Grown len ba ba' ∧ Regions ba' len iovs := by
  have grown := addCapacity_grown h len junk
  rw [getWriteBuffers, if_neg (by omega)]
  dsimp only
  generalize ba.addCapacity len junk = b1 at grown
  obtain ⟨iovs, hr⟩ := exists_regions grown.inv hlen (by rw [grown.pos]; exact grown.room)
  rw [hr.loop]
  exact ⟨iovs, b1, rfl, grown, hr⟩

theorem Regions.addresses {ba : ByteArray} {len : ℕ} {iovs : List Iovec} (h : Inv ba) (hr : Regions ba len iovs) :
    iovs.flatMap (Iovec.addresses ba.baseSize) = List.range' ba.position len := by
  rw [iovLoop_addresses h.chain_sized h.mod_lt.le hr.loop, h.curIdx_eq, Nat.div_add_mod]

/-- **Filling the regions** is a splice of the memory at the cursor. -/
theorem fill_spec {ba : ByteArray} (h : Inv ba) {len : ℕ} {iovs : List Iovec} (hr : Regions ba len iovs)
    {bs : List UInt8} (hbs : bs.length ≤ len) :
    Inv (ba.fill iovs bs) ∧ (ba.fill iovs bs).mem = splice ba.mem ba.position bs := by
  have hsplit : ba.nodes = ba.nodes.take ba.curIdx ++ ba.chain := (List.take_append_drop _ _).symm
  have hidx : ba.curIdx ≤ ba.nodes.length := by rw [h.curIdx_eq]; exact h.div_le
  have hpre : (ba.nodes.take ba.curIdx).length = ba.curIdx := by rw [List.length_take, min_eq_left hidx]
  have hroom := hr.room
  obtain ⟨c', h1, h2, h3, h4⟩ := fillNodes_splice (ba.nodes.take ba.curIdx) bs h.chain_sized h.mod_lt.le
    (by rw [hpre]; exact hr.loop) hbs (by rw [← h.chain_length]; omega)
  have hnodes : (ba.fill iovs bs).nodes = ba.nodes.take ba.curIdx ++ c' := by
    rw [fill]
    conv_lhs => rw [hsplit]
    exact h1
  have hlen : (ba.fill iovs bs).nodes.length = ba.nodes.length := by
    conv_rhs => rw [hsplit]
    rw [hnodes, List.length_append, List.length_append, h3]
  refine ⟨⟨h.base_pos, ?_, ?_, ?_, h.pos_le, h.size_le, ?_⟩, ?_⟩
  · rw [hnodes]
    exact (h.sized.take _).append h2
  · exact List.ne_nil_of_length_pos (by rw [hlen]; exact List.length_pos_iff.mpr h.root)
  · rw [hlen]
    exact h.cap
  · rw [ptrAt, hlen]
    exact h.cur_eq
  · have hfront : (memOf (ba.nodes.take ba.curIdx)).length = ba.baseSize * ba.curIdx := by
      rw [memOf_length (h.sized.take _), hpre]
    have hpos : ba.position = (memOf (ba.nodes.take ba.curIdx)).length + ba.position % ba.baseSize := by
      rw [hfront, h.curIdx_eq, Nat.div_add_mod]
    have hmem : ba.mem = memOf (ba.nodes.take ba.curIdx) ++ memOf ba.chain := by
      rw [mem, ← memOf_append, ← hsplit]
    rw [mem, hnodes, memOf_append, h4, hmem]
    conv_rhs => rw [hpos]
    rw [splice_append_right]

/-! ## Reading from the socket -/

/-- `SocketStream::read(ba, len)` -/
def streamRead (len : ℕ) (junk : ℕ → UInt8) (ba : ByteArray) (c : Conn) : Except Err ℤ × ByteArray × Conn :=
  if !c.connected then (.ok (-1), ba, c)
  else
    match getWriteBuffers len junk ba with
    | (.error e, ba) => (.error e, ba, c)
    | (.ok (_, iovs), ba) =>
      match c.read (iovs.map Iovec.len).sum with
      | (rt, bs, c) =>
        let ba := ba.fill iovs bs
        if 0 < rt then
          match setPosition (ba.position + rt.toNat) ba with
          | (.error e, ba) => (.error e, ba, c)
          | (.ok (), ba) => (.ok rt, ba, c)
        else (.ok rt, ba, c)

/-- a fill of `bs` in the regions for `len` bytes, and the seek behind it -/
def scatter (len : ℕ) (bs : List UInt8) (junk : ℕ → UInt8) (ba : ByteArray) : Except Err Unit × ByteArray :=
  match getWriteBuffers len junk ba with
  | (.error e, ba) => (.error e, ba)
  | (.ok (_, iovs), ba) => setPosition (ba.position + bs.length) (ba.fill iovs bs)

theorem scatter_spec {ba : ByteArray} (h : Inv ba) {len : ℕ} (hlen : 1 ≤ len) {bs : List UInt8} (hbs : bs.length ≤ len)
    (junk : ℕ → UInt8) :
    ∃ ba', scatter len bs junk ba = (.ok (), ba') ∧ Inv ba' ∧ ba'.position = ba.position + bs.length ∧
      ba'.contents = splice ba.contents ba.position bs := by
  obtain ⟨iovs, b1, h1, grown, hr⟩ := getWriteBuffers_regions h hlen junk
  obtain ⟨hinv, hmem⟩ := fill_spec grown.inv hr hbs
  have hpos : (b1.fill iovs bs).position = ba.position := grown.pos
  have hsize : (b1.fill iovs bs).size = ba.size := grown.size
  have hroom := grown.room
  have hcap : ba.position + bs.length ≤ (b1.fill iovs bs).capacity := by
    show _ ≤ b1.capacity
    omega
  obtain ⟨b2, h2, hinv₂, -, hpos₂, hsize₂, hmem₂⟩ := setPosition_spec hinv hcap
  obtain ⟨f, hf⟩ := grown.fresh
  refine ⟨b2, ?_, hinv₂, hpos₂, ?_⟩
  · rw [scatter, h1]
    dsimp only
    rw [grown.pos, h2]
  · have hle := h.pos_le
    have hlong : ba.size ≤ ba.mem.length := by rw [h.mem_length]; exact h.size_le
    have hb1 : b1.mem.length = b1.capacity := grown.inv.mem_length
    rw [contents, hmem₂, hsize₂, hmem, hsize, grown.pos, take_splice _ _ _ _ hle (by omega), contents, hf,
      List.take_append_of_le_length hlong]

/-- a read with bytes to come takes some of them -/
theorem streamRead_spec {ba : ByteArray} (h : Inv ba) {len : ℕ} (hlen : 1 ≤ len) (junk : ℕ → UInt8) {c : Conn}
    (hc : c.available ≠ []) :
    ∃ bs ba' c', streamRead len junk ba c = (.ok (bs.length : ℤ), ba', c') ∧ 1 ≤ bs.length ∧ bs.length ≤ len ∧
      c.available = bs ++ c'.available ∧ Inv ba' ∧ ba'.position = ba.position + bs.length ∧
      ba'.contents = splice ba.contents ba.position bs := by
  have hconn : c.connected = true := by
    by_contra hne
    exact hc (by simp [Conn.available, hne])
  obtain ⟨iovs, b1, h1, grown, hr⟩ := getWriteBuffers_regions h hlen junk
  rcases hread : c.read len with ⟨rt, bs, c'⟩
  have hpos : 0 < rt := by
    by_contra hle
    exact hc (read_nonpos hread (by omega) (by omega))
  obtain ⟨rfl, hbs, hfit, happ⟩ := read_pos hread hpos
  have hle : bs.length ≤ len := hfit.trans (min_le_left _ _)
  obtain ⟨b2, h2, hinv, hp, hcont⟩ := scatter_spec h hlen hle junk
  refine ⟨bs, b2, c', ?_, hbs, hle, happ, hinv, hp, hcont⟩
  rw [scatter, h1] at h2
  dsimp only at h2
  rw [streamRead, hconn, h1]
  simp only [hr.total, hread, hpos, if_true, Bool.not_true, Bool.false_eq_true, if_false, Int.toNat_natCast]
  rw [show (b1.fill iovs bs).position = b1.position from rfl, h2]

/-- the loop of `Stream::readFixSize(ba, length)` with `left` bytes to go -/
def readFixSizeLoop (length : ℕ) (junk : ℕ → UInt8) (left : ℤ) (ba : ByteArray) (c : Conn) :
    Except Err ℤ × ByteArray × Conn :=
  if 0 < left then
    match streamRead left.toNat junk ba c with
    | (.error e, ba, c) => (.error e, ba, c)
    | (.ok len, ba, c) => if len ≤ 0 then (.ok len, ba, c) else readFixSizeLoop length junk (left - len) ba c
  else (.ok (toInt32 length), ba, c)
termination_by left.toNat

def readFixSize (length : ℕ) (junk : ℕ → UInt8) (ba : ByteArray) (c : Conn) : Except Err ℤ × ByteArray × Conn :=
  readFixSizeLoop length junk (toInt64 length) ba c

theorem readFixSizeLoop_spec (length : ℕ) (junk : ℕ → UInt8) {n : ℕ} {ba : ByteArray} (h : Inv ba) {c : Conn}
    (hn : n ≤ c.available.length) :
    ∃ ba' c', readFixSizeLoop length junk n ba c = (.ok (toInt32 length), ba', c') ∧ Inv ba' ∧
      ba'.position = ba.position + n ∧ ba'.contents = splice ba.contents ba.position (c.available.take n) ∧
      c'.available = c.available.drop n := by
  induction n using Nat.strong_induction_on generalizing ba c with
  | _ n ih =>
    rw [readFixSizeLoop]
    by_cases h0 : n = 0
    · subst h0
      exact ⟨ba, c, by simp, h, rfl, by simp, rfl⟩
    have hc : c.available ≠ [] := List.ne_nil_of_length_pos (by omega)
    obtain ⟨bs, b1, c1, h1, hpos, hle, happ, hinv, hp, hcont⟩ := streamRead_spec h (show 1 ≤ n by omega) junk hc
    rw [if_pos (by omega), Int.toNat_natCast, h1]
    dsimp only
    rw [if_neg (by omega), show (n : ℤ) - bs.length = ((n - bs.length : ℕ) : ℤ) by omega]
    have hrest : n - bs.length ≤ c1.available.length := by
      rw [happ, List.length_append] at hn
      omega
    obtain ⟨b2, c2, h2, hinv₂, hp₂, hcont₂, hdrop⟩ := ih (n - bs.length) (by omega) hinv hrest
    have hlen : ba.position ≤ ba.contents.length := by rw [h.contents_length]; exact h.pos_le
    refine ⟨b2, c2, h2, hinv₂, by omega, ?_, ?_⟩
    · rw [hcont₂, hcont, hp, splice_splice _ _ _ _ hlen, happ, List.take_append, List.take_of_length_le hle]
    · rw [hdrop, happ, List.drop_append, List.drop_of_length_le hle, List.nil_append]

/-! ## Reachable arrays -/

/-- what any use of the array can lead to, the stores of the kernel included -/
inductive Reachable : ByteArray → Prop where
  | new (base : ℕ) (junk : ℕ → UInt8) (hb : 1 ≤ base) : Reachable (new base junk)
  | call {ba : ByteArray} (h : Reachable ba) (c : Call) (hc : c.Ok) : Reachable (call c ba).2
  | endian {ba : ByteArray} (h : Reachable ba) (b : Bool) : Reachable (setIsLittleEndian b ba).2
  | fill {ba ba' : ByteArray} {len : ℕ} {junk : ℕ → UInt8} {n : ℕ} {iovs : List Iovec} (h : Reachable ba)
      (hw : getWriteBuffers len junk ba = (.ok (n, iovs), ba')) (bs : List UInt8) (hbs : bs.length ≤ len) :
      Reachable (ba'.fill iovs bs)

theorem Reachable.inv {ba : ByteArray} (h : Reachable ba) : Inv ba := by
  induction h with
  | new base junk hb => exact inv_new base junk hb
  | call _ c hc ih => exact (call_inv ih c hc).1
  | endian _ b ih => exact ⟨ih.base_pos, ih.sized, ih.root, ih.cap, ih.pos_le, ih.size_le, ih.cur_eq⟩
  | @fill ba ba' len junk n iovs _ hw bs hbs ih =>
    by_cases h0 : len = 0
    · subst h0
      rw [getWriteBuffers, if_pos rfl, Prod.mk.injEq, Except.ok.injEq, Prod.mk.injEq] at hw
      obtain ⟨⟨-, rfl⟩, rfl⟩ := hw
      exact ih
    · obtain ⟨iovs', b1, h1, grown, hr⟩ := getWriteBuffers_regions ih (Nat.one_le_iff_ne_zero.mpr h0) junk
      rw [h1, Prod.mk.injEq, Except.ok.injEq, Prod.mk.injEq] at hw
      obtain ⟨⟨-, rfl⟩, rfl⟩ := hw
      exact (fill_spec grown.inv hr hbs).1

/-- blocks of two bytes with `bs` written and the cursor at `p` -/
def written (bs : List UInt8) (p : ℕ) : ByteArray :=
  (calls (new 2 fun _ => 0) [.write bs fun _ => 0, .setPosition p]).2

theorem reachable_written (bs : List UInt8) (p : ℕ) : Reachable (written bs p) :=
  .call (.call (.new 2 (fun _ => 0) (by decide)) (.write bs fun _ => 0) trivial) (.setPosition p) trivial

/-- the other direction of a socket: what the coming `sendmsg` calls return at most, and the bytes taken so far; at the
end of the list they fail -/
structure Out where
  accepts : List ℤ
  sent : List UInt8 := []
  connected : Bool := true
deriving DecidableEq, Repr

/-- `sendmsg` with the bytes of its regions; it takes no more than an `int` can say -/
def Out.send (o : Out) (bs : List UInt8) : ℤ × Out :=
  match o.accepts with
  | [] => (-1, o)
  | a :: as =>
    if a ≤ 0 then (a, { o with accepts := as })
    else
      let n := min a.toNat (min bs.length maxRead)
      (n, { o with accepts := as, sent := o.sent ++ bs.take n })

/-- `SocketStream::write(ba, len)` -/
def streamWrite (len : ℕ) (junk : ℕ → UInt8) (ba : ByteArray) (o : Out) : Except Err ℤ × ByteArray × Out :=
  if !o.connected then (.ok (-1), ba, o)
  else
    match getWriteBuffers len junk ba with
    | (.error e, ba) => (.error e, ba, o)
    | (.ok (_, iovs), ba) =>
      match o.send (iovs.flatMap (iovBytes ba.nodes)) with
      | (rt, o) =>
        if 0 < rt then
          match setPosition (ba.position + rt.toNat) ba with
          | (.error e, ba) => (.error e, ba, o)
          | (.ok (), ba) => (.ok rt, ba, o)
        else (.ok rt, ba, o)

/-- a socket that takes something of the next `n` sends -/
structure Out.Willing (o : Out) (n : ℕ) : Prop where
  connected : o.connected = true
  takes : ∀ a ∈ o.accepts, 0 < a
  enough : n ≤ o.accepts.length

/-- what a `sendmsg` does -/
theorem send_spec (o : Out) (bs : List UInt8) :
    ∃ n : ℕ, n ≤ min bs.length maxRead ∧ (o.send bs).1.toNat = n ∧ (o.send bs).2.sent = o.sent ++ bs.take n ∧
      (∀ a as, o.accepts = a :: as → n = min a.toNat (min bs.length maxRead)) ∧
      ∀ k, o.Willing (k + 1) → bs ≠ [] → 0 < n ∧ (o.send bs).2.Willing k := by
  unfold Out.send
  rcases ha : o.accepts with - | ⟨a, as⟩
  · refine ⟨0, Nat.zero_le _, rfl, by simp, by simp, ?_⟩
    intro k hk
    exact absurd hk.enough (by simp [ha])
  · dsimp only
    split_ifs with hle
    · refine ⟨0, Nat.zero_le _, by omega, by simp, ?_, ?_⟩
      · intro a' as' heq
        rw [← (List.cons.inj heq).1, Int.toNat_of_nonpos hle, Nat.zero_min]
      · intro k hk
        exact absurd (hk.takes a (by simp [ha])) (by omega)
    · refine ⟨_, min_le_right _ _, Int.toNat_natCast _, rfl, ?_, ?_⟩
      · intro a' as' heq
        rw [(List.cons.inj heq).1]
      intro k hk hne
      have hlen : 0 < bs.length := List.length_pos_iff.mpr hne
      have hmax : 0 < maxRead := by decide
      refine ⟨by omega, hk.connected, ?_, ?_⟩
      · exact fun x hx => hk.takes x (by rw [ha]; exact List.mem_cons_of_mem a hx)
      · have := hk.enough
        rw [ha, List.length_cons] at this
        exact Nat.le_of_succ_le_succ this

/-- `n` bytes went from the cursor of `ba` to the socket -/
structure Wrote (ba : ByteArray) (o : Out) (n : ℕ) (ba' : ByteArray) (o' : Out) : Prop where
  inv : Inv ba'
  pos : ba'.position = ba.position + n
  size : ba'.size = max ba.size (ba.position + n)
  fresh : ∃ f, ba'.mem = ba.mem ++ f
  sent : o'.sent = o.sent ++ (ba'.mem.drop ba.position).take n

/-- **One call** of `write(ba, len)`: it sends from the memory, readable or not, and never fails. -/
theorem streamWrite_spec {ba : ByteArray} (h : Inv ba) (len : ℕ) (junk : ℕ → UInt8) (o : Out) :
    ∃ rt n ba' o', streamWrite len junk ba o = (.ok rt, ba', o') ∧ Wrote ba o n ba' o' ∧ n ≤ min len maxRead ∧
      rt.toNat = n ∧ (∀ a as, o.connected = true → o.accepts = a :: as → n = min a.toNat (min len maxRead)) ∧
      ∀ k, o.Willing (k + 1) → 1 ≤ len → 0 < n ∧ o'.Willing k := by
  have hsame : ∀ ba', Grown len ba ba' → ∀ o' : Out, o'.sent = o.sent → Wrote ba o 0 ba' o' := by
    intro ba' g o' ho
    refine ⟨g.inv, g.pos, ?_, g.fresh, by simp [ho]⟩
    rw [g.size, Nat.add_zero, max_eq_left h.pos_le]
  by_cases hconn : o.connected = true
  swap
  · rw [streamWrite, if_pos (by simp [hconn])]
    refine ⟨-1, 0, ba, o, rfl, ⟨h, rfl, by rw [Nat.add_zero, max_eq_left h.pos_le], ⟨[], by simp⟩, by simp⟩,
      Nat.zero_le _, rfl, fun _ _ hc => absurd hc hconn, ?_⟩
    intro k hk
    exact absurd hk.connected hconn
  obtain ⟨iovs, b1, h1, grown, hbytes⟩ : ∃ iovs b1, getWriteBuffers len junk ba = (.ok (len, iovs), b1) ∧
      Grown len ba b1 ∧ iovs.flatMap (iovBytes b1.nodes) = (b1.mem.drop b1.position).take len := by
    by_cases h0 : len = 0
    · subst h0
      exact ⟨[], ba, by simp [getWriteBuffers], ⟨h, rfl, rfl, rfl, rfl, ⟨[], by simp⟩, h.pos_le_cap⟩, by simp⟩
    · obtain ⟨iovs, b1, h1, grown, hr⟩ := getWriteBuffers_regions h (Nat.one_le_iff_ne_zero.mpr h0) junk
      exact ⟨iovs, b1, h1, grown, hr.bytes⟩
  have hlen : (iovs.flatMap (iovBytes b1.nodes)).length = len := by
    have := grown.room
    rw [hbytes, List.length_take, List.length_drop, grown.inv.mem_length, grown.pos]
    omega
  obtain ⟨n, hn, hrt, hsent, hall, hwill⟩ := send_spec o (iovs.flatMap (iovBytes b1.nodes))
  rcases hs : o.send (iovs.flatMap (iovBytes b1.nodes)) with ⟨rt, o'⟩
  rw [hs] at hrt hsent hwill
  rw [hlen] at hn hall
  have hwill' : ∀ k, o.Willing (k + 1) → 1 ≤ len → 0 < n ∧ o'.Willing k :=
    fun k hk hle => hwill k hk (List.ne_nil_of_length_pos (by omega))
  rw [streamWrite, hconn, h1]
  simp only [Bool.not_true, Bool.false_eq_true, if_false, hs]
  by_cases hpos : 0 < rt
  · have hcap : b1.position + rt.toNat ≤ b1.capacity := by
      have := grown.room
      rw [grown.pos, hrt]
      omega
    obtain ⟨b2, h2, hinv₂, -, hp₂, hsize₂, hmem₂⟩ := setPosition_spec grown.inv hcap
    rw [if_pos hpos, h2]
    refine ⟨rt, n, b2, o', rfl, ⟨hinv₂, ?_, ?_, ?_, ?_⟩, hn, hrt, fun a as _ => hall a as, hwill'⟩
    · rw [hp₂, grown.pos, hrt]
    · rw [hsize₂, grown.size, grown.pos, hrt]
    · rw [hmem₂]
      exact grown.fresh
    · rw [hsent, hbytes, List.take_take, min_eq_left (by omega), hmem₂, grown.pos]
  · have hzero : n = 0 := by omega
    subst hzero
    rw [if_neg hpos]
    exact ⟨rt, 0, b1, o', rfl, hsame b1 grown o' (by simpa using hsent), hn, hrt, fun a as _ => hall a as, hwill'⟩

/-- inside the readable bytes, a send leaves the contents -/
theorem Wrote.readable {ba ba' : ByteArray} {o o' : Out} {n : ℕ} (h : Inv ba) (hw : Wrote ba o n ba' o')
    (hn : n ≤ ba.getReadSize) :
    ba'.size = ba.size ∧ ba'.contents = ba.contents ∧ o'.sent = o.sent ++ (ba.contents.drop ba.position).take n := by
  have hle := h.pos_le
  have hread : ba.getReadSize = ba.size - ba.position := rfl
  have hsize : ba'.size = ba.size := by rw [hw.size, max_eq_left (by omega)]
  obtain ⟨f, hf⟩ := hw.fresh
  have hlong : ba.size ≤ ba.mem.length := by rw [h.mem_length]; exact h.size_le
  have hcont : ba'.contents = ba.contents := by
    rw [contents, hf, hsize, List.take_append_of_le_length hlong, contents]
  refine ⟨hsize, hcont, ?_⟩
  rw [hw.sent, hf, List.drop_append_of_le_length (by omega), List.take_append_of_le_length
    (by rw [List.length_drop]; omega), h.slice_contents hn]

/-- the loop of `Stream::writeFixSize(ba, length)` with `left` bytes to go -/
def writeFixSizeLoop (length : ℕ) (junk : ℕ → UInt8) (left : ℤ) (ba : ByteArray) (o : Out) :
    Except Err ℤ × ByteArray × Out :=
  if 0 < left then
    match streamWrite left.toNat junk ba o with
    | (.error e, ba, o) => (.error e, ba, o)
    | (.ok len, ba, o) => if len ≤ 0 then (.ok len, ba, o) else writeFixSizeLoop length junk (left - len) ba o
  else (.ok (toInt32 length), ba, o)
termination_by left.toNat

def writeFixSize (length : ℕ) (junk : ℕ → UInt8) (ba : ByteArray) (o : Out) : Except Err ℤ × ByteArray × Out :=
  writeFixSizeLoop length junk (toInt64 length) ba o

/-- the loop sends a piece of the next `n` readable bytes, and all of them if the socket goes on taking -/
theorem writeFixSizeLoop_spec (length : ℕ) (junk : ℕ → UInt8) {n : ℕ} {ba : ByteArray} (h : Inv ba) {o : Out}
    (hn : n ≤ ba.getReadSize) :
    ∃ m rt ba' o', writeFixSizeLoop length junk n ba o = (.ok rt, ba', o') ∧ m ≤ n ∧ (o.Willing n → m = n) ∧
      o'.sent = o.sent ++ (ba.contents.drop ba.position).take m ∧ ba'.contents = ba.contents ∧ ba'.size = ba.size ∧
      ba'.position = ba.position + m := by
  induction n using Nat.strong_induction_on generalizing ba o with
  | _ n ih =>
    rw [writeFixSizeLoop]
    by_cases h0 : n = 0
    · subst h0
      exact ⟨0, toInt32 length, ba, o, by simp, le_refl 0, fun _ => rfl, by simp, rfl, rfl, rfl⟩
    obtain ⟨rt, k, b1, o1, h1, hw, hk, hrt, -, hwill⟩ := streamWrite_spec h n junk o
    have hkn : k ≤ n := hk.trans (min_le_left _ _)
    obtain ⟨hsize, hcont, hsent⟩ := hw.readable h (hkn.trans hn)
    rw [if_pos (by omega), Int.toNat_natCast, h1]
    dsimp only
    by_cases hle : rt ≤ 0
    · have hzero : k = 0 := by omega
      subst hzero
      rw [if_pos hle]
      refine ⟨0, rt, b1, o1, rfl, Nat.zero_le n, ?_, hsent, hcont, hsize, hw.pos⟩
      intro hwilling
      obtain ⟨n', rfl⟩ := Nat.exists_eq_succ_of_ne_zero h0
      exact absurd (hwill n' hwilling (by omega)).1 (lt_irrefl 0)
    · have hread : ba.getReadSize = ba.size - ba.position := rfl
      have hread₁ : b1.getReadSize = b1.size - b1.position := rfl
      have hpos := hw.pos
      rw [if_neg hle, show (n : ℤ) - rt = ((n - k : ℕ) : ℤ) by omega]
      obtain ⟨m, rt₂, b2, o2, h2, hm, hall, hsent₂, hcont₂, hsize₂, hpos₂⟩ := ih (n - k) (by omega) hw.inv (o := o1)
        (by omega)
      refine ⟨k + m, rt₂, b2, o2, h2, by omega, ?_, ?_, hcont₂.trans hcont, hsize₂.trans hsize, by omega⟩
      · intro hwilling
        have hrest : o1.Willing (n - k) := by
          obtain ⟨n', rfl⟩ := Nat.exists_eq_succ_of_ne_zero h0
          have hw1 := (hwill n' hwilling (by omega)).2
          exact ⟨hw1.connected, hw1.takes, le_trans (by omega) hw1.enough⟩
        rw [hall hrest]
        omega
      · rw [hsent₂, hsent, hcont, hpos, List.append_assoc, ← List.drop_drop, ← List.take_add]

/-- what is sent of `ba` is a first part of its readable bytes, whatever the socket takes -/
def SendsReadable (ba : ByteArray) (len : ℕ) : Prop :=
  ∀ junk o, ∃ text rt bs ba' o', toString ba = (.ok text, ba) ∧ streamWrite len junk ba o = (.ok rt, ba', o') ∧
    o'.sent = o.sent ++ bs ∧ bs <+: text ∧ bs.length ≤ ba.getReadSize ∧ ba'.size = ba.size ∧
    ba'.position = ba.position + bs.length

/-- **Gather output.** `write(ba, len)` sends a first part of the readable bytes, whatever the socket takes, if and
only if no more than these are asked for (or there are more than one call can take). And `writeFixSize` of at most the
readable bytes sends a first part of them, and all of them if the socket goes on taking. -/
theorem gather_iff (ba : ByteArray) (h : Reachable ba) :
    (∀ len, SendsReadable ba len ↔ min len maxRead ≤ ba.getReadSize) ∧
    ∀ (n : ℕ) (junk : ℕ → UInt8) (o : Out), n ≤ ba.getReadSize → n < 2 ^ 63 →
      ∃ text bs rt ba' o', toString ba = (.ok text, ba) ∧ writeFixSize n junk ba o = (.ok rt, ba', o') ∧
        o'.sent = o.sent ++ bs ∧ bs <+: text.take n ∧ (o.Willing n → bs = text.take n) ∧ ba'.size = ba.size ∧
        ba'.position = ba.position + bs.length := by
  have hinv := h.inv
  have hread : (ba.contents.drop ba.position).length = ba.getReadSize := by
    rw [List.length_drop, hinv.contents_length, getReadSize]
  refine ⟨?_, ?_⟩
  · intro len
    constructor
    · intro hsend
      -- a socket that takes all
      obtain ⟨text, rt, bs, ba', o', -, h1, -, -, hle, -, hpos⟩ := hsend (fun _ => 0) ⟨[(len : ℤ)], [], true⟩
      obtain ⟨rt₂, n, b2, o2, h2, hw, -, -, hall, -⟩ := streamWrite_spec hinv len (fun _ => 0) ⟨[(len : ℤ)], [], true⟩
      rw [h1, Prod.mk.injEq, Prod.mk.injEq] at h2
      have hn : n = min len maxRead := by
        rw [hall len [] rfl rfl, Int.toNat_natCast, min_eq_right (min_le_left _ _)]
      have := hw.pos
      rw [← h2.2.1] at this
      omega
    · intro hle junk o
      obtain ⟨rt, n, ba', o', h1, hw, hn, -, -, -⟩ := streamWrite_spec hinv len junk o
      obtain ⟨hsize, -, hsent⟩ := hw.readable hinv (hn.trans hle)
      have hlen : ((ba.contents.drop ba.position).take n).length = n := by
        rw [List.length_take, hread]
        omega
      refine ⟨_, rt, _, ba', o', toString_spec hinv, h1, hsent, List.take_prefix _ _, ?_, hsize, ?_⟩
      · rw [hlen]
        exact hn.trans hle
      · rw [hlen, hw.pos]
  · intro n junk o hn hlt
    have h64 : toInt64 n = n := toInt64_of_lt (by omega) (by omega)
    obtain ⟨m, rt, ba', o', h1, hm, hall, hsent, -, hsize, hpos⟩ := writeFixSizeLoop_spec n junk hinv (o := o) hn
    have hlen : ((ba.contents.drop ba.position).take m).length = m := by
      rw [List.length_take, hread]
      omega
    refine ⟨_, _, rt, ba', o', toString_spec hinv, by rw [writeFixSize, h64]; exact h1, hsent, ?_, ?_, hsize, ?_⟩
    · rw [← min_eq_left hm, ← List.take_take]
      exact List.take_prefix _ _
    · intro hwilling
      rw [hall hwilling]
    · rw [hlen, hpos]

/-- three bytes are written, the cursor is set back, and two of them are sent -/
def threeBytes : ByteArray := (calls (new 4 fun _ => 0) [.write [1, 2, 3] fun _ => 0, .setPosition 0]).2

theorem threeBytes_reachable : Reachable threeBytes :=
  ((Reachable.new 4 (fun _ => 0) (by decide)).call (.write [1, 2, 3] fun _ => 0) trivial).call (.setPosition 0) trivial

theorem gather_iff_two : SendsReadable threeBytes 2 ∧ threeBytes.getReadSize = 3 :=
  ⟨((gather_iff threeBytes threeBytes_reachable).1 2).mpr (by decide), by decide⟩

/-- asked for four bytes, the call sends a byte that was never written, and the size grows -/
theorem write_sends_garbage : Reachable threeBytes ∧ ¬SendsReadable threeBytes 4 := by
  refine ⟨threeBytes_reachable, ?_⟩
  intro hsend
  obtain ⟨text, rt, bs, ba', o', -, h1, -, -, -, hsize, -⟩ := hsend (fun _ => 0) ⟨[4], [], true⟩
  have h2 : (streamWrite 4 (fun _ => 0) threeBytes ⟨[4], [], true⟩).2.1.size = 4 := by decide
  rw [h1] at h2
  rw [h2] at hsize
  exact absurd hsize (by decide)

end Sylar.ByteArray
