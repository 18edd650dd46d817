/-
The text of an IPv6 address (`IPv6Address::insert`, `IPv6Address::Create`).

`insert` goes through the eight groups with one flag. While the flag is down the groups with zero are skipped; the
first other group behind them raises it, with a second colon. `Printed` is the invariant: before the flag is up the
groups are some that were written and then zeros, afterwards there was one run of zeros, which is `::` in the text.
- `printed_step`, `printed_loop`: one group, and all of them.
- `inetPton6` reads eight groups, or fewer with one `::` for the others; it reads what `insert` writes
  (`parse_written`).
- `ipv6_text`: the text between the brackets is read back as the address, behind them is the port, and so two pairs of
  an address and a port are never printed alike.
-/
import Mathlib.Tactic
import Sylar.Core.LeBytes
import Sylar.Core.Text
import Sylar.Core.Numerals
import Sylar.ByteArray.Codec
import Sylar.Http.Message
import Sylar.Address.Model

namespace Sylar.Address

open Sylar.Core Sylar.ByteArray Sylar.Http

/-! ## The operations -/

/-- `addr[i]` of the `uint16_t*` -/
def In6Addr.word (a : In6Addr) (i : ℕ) : BitVec 16 := ofImage .little 2 ((a.s6Addr.drop (2 * i)).take 2)

/-- the body of the loop; the state is the stream and `used_zeros` -/
def insertStep (a : In6Addr) (i : ℕ) (s : Bytes × Bool) : Bytes × Bool :=
  if a.word i = 0 ∧ ¬s.2 then s
  else
    let s := if i ≠ 0 ∧ a.word (i - 1) = 0 ∧ ¬s.2 then (s.1 ++ ascii ":", true) else s
    let os := if i ≠ 0 then s.1 ++ ascii ":" else s.1
    (os ++ numeral 16 (swapPort (a.word i)).toNat, s.2)

/-- the state when the loop has come to `i` -/
def insertLoop (a : In6Addr) (os : Bytes) : ℕ → Bytes × Bool
  | 0 => (os, false)
  | i + 1 => insertStep a i (insertLoop a os i)

def IPv6Address.insert (a : IPv6Address) : Bytes :=
  let s := insertLoop a.addr.sin6Addr (ascii "[") 8
  (if ¬s.2 ∧ a.addr.sin6Addr.word 7 = 0 then s.1 ++ ascii "::" else s.1) ++
    (ascii "]:" ++ decimal (swapPort a.addr.sin6Port).toNat)

/-- what stands before and behind the first `::` -/
def doubleColon : Bytes → Option (Bytes × Bytes)
  | 58 :: 58 :: s => some ([], s)
  | c :: s => (doubleColon s).map fun x => (c :: x.1, x.2)
  | [] => none

/-- one to four digits -/
def hexGroup (s : Bytes) : Option ℕ := if s ≠ [] ∧ s.length ≤ 4 then value 16 s else none

def hexGroups (s : Bytes) : Option (List ℕ) := if s = [] then some [] else (s.splitOn 58).mapM hexGroup

/-- eight groups, or `::` for one or more that are zero -/
def parseGroups (s : Bytes) : Option (List ℕ) :=
  match doubleColon s with
  | some (l, r) => do
    let a ← hexGroups l
    let b ← hexGroups r
    if a.length + b.length < 8 then some (a ++ List.replicate (8 - (a.length + b.length)) 0 ++ b) else none
  | none => do
    let a ← hexGroups s
    if a.length = 8 then some a else none

def groupBytes (g : ℕ) : Bytes := [(g / 256).toUInt8, (g % 256).toUInt8]

/-- `inet_pton(AF_INET6, ..)` -/
def inetPton6 (s : Bytes) : Option In6Addr :=
  (parseGroups s).bind fun gs =>
    if h : (gs.flatMap groupBytes).length = 16 then some ⟨gs.flatMap groupBytes, h⟩ else none

def IPv6Address.create (address : Bytes) (port : BitVec 16 := 0) : Option IPv6Address :=
  let rt := IPv6Address.init
  (inetPton6 address).map fun x => ⟨{ rt.addr with sin6Port := swapPort port, sin6Addr := x }⟩

/-! ## Groups -/

/-- `byteswapOnLittleEndian(addr[i])` -/
def In6Addr.group (a : In6Addr) (i : ℕ) : ℕ := (swapPort (a.word i)).toNat

/-- the first `k` groups -/
def In6Addr.groups (a : In6Addr) (k : ℕ) : List ℕ := (List.range k).map a.group

theorem word_eq_zero_iff (a : In6Addr) (i : ℕ) : a.word i = 0 ↔ a.group i = 0 := by
  have hzero : swapPort 0 = 0 := by decide
  constructor
  · intro h
    rw [In6Addr.group, h, hzero]
    rfl
  · intro h
    have hswap : swapPort (a.word i) = 0 := BitVec.eq_of_toNat_eq h
    rw [← swapPort_swapPort (a.word i), hswap, hzero]

theorem groups_succ (a : In6Addr) (k : ℕ) : a.groups (k + 1) = a.groups k ++ [a.group k] := by
  rw [In6Addr.groups, List.range_succ, List.map_append, List.map_singleton, In6Addr.groups]

/-- the colons between groups -/
def joined (gs : List ℕ) : Bytes := [58].intercalate (gs.map (numeral 16))

theorem joined_nil : joined [] = [] := List.intercalate_nil

theorem joined_singleton (g : ℕ) : joined [g] = numeral 16 g := List.intercalate_singleton

theorem joined_cons (g : ℕ) {gs : List ℕ} (h : gs ≠ []) : joined (g :: gs) = numeral 16 g ++ 58 :: joined gs := by
  have hne : gs.map (numeral 16) ≠ [] := by rwa [ne_eq, List.map_eq_nil_iff]
  rw [joined, List.map_cons, intercalate_cons_of_ne_nil 58 _ hne, joined]

theorem joined_snoc {gs : List ℕ} (h : gs ≠ []) (g : ℕ) : joined (gs ++ [g]) = joined gs ++ 58 :: numeral 16 g := by
  induction gs with
  | nil => exact absurd rfl h
  | cons x gs ih =>
    by_cases hlast : gs = []
    · rw [hlast, List.singleton_append, joined_cons x (List.cons_ne_nil g []), joined_singleton, joined_singleton]
    · have hne : gs ++ [g] ≠ [] := List.append_ne_nil_of_left_ne_nil hlast [g]
      rw [List.cons_append, joined_cons x hne, ih hlast, joined_cons x hlast, List.append_assoc, List.cons_append]

/-! ## Printing -/

/-- what the state is after the groups `gs`, behind `os` -/
inductive Printed (os : Bytes) : List ℕ → Bytes × Bool → Prop
  /-- groups without zero, and zeros that are still held back -/
  | skipping (a : List ℕ) (n : ℕ) : 0 ∉ a → Printed os (a ++ List.replicate n 0) (os ++ joined a, false)
  /-- the zeros have been written -/
  | used (a : List ℕ) (n : ℕ) (b : List ℕ) : b ≠ [] →
      Printed os (a ++ List.replicate (n + 1) 0 ++ b) (os ++ joined a ++ ascii "::" ++ joined b, true)

section

variable (a : In6Addr) {i : ℕ} (os : Bytes)

theorem group_eq (i : ℕ) : (swapPort (a.word i)).toNat = a.group i := rfl

theorem insertStep_skip (hg : a.group i = 0) : insertStep a i (os, false) = (os, false) :=
  if_pos ⟨(word_eq_zero_iff a i).mpr hg, Bool.false_ne_true⟩

theorem insertStep_first (hg : a.group 0 ≠ 0) : insertStep a 0 (os, false) = (os ++ numeral 16 (a.group 0), false) := by
  simp only [insertStep, word_eq_zero_iff, hg, ne_eq, not_true_eq_false, false_and, if_false, group_eq]

theorem insertStep_next (hi : i ≠ 0) (hlast : a.group (i - 1) ≠ 0) (hg : a.group i ≠ 0) :
    insertStep a i (os, false) = (os ++ 58 :: numeral 16 (a.group i), false) := by
  simp only [insertStep, word_eq_zero_iff, hi, hlast, hg, ne_eq, not_false_eq_true, false_and, and_false, if_false,
    if_true, group_eq, List.append_assoc]
  rfl

theorem insertStep_raise (hi : i ≠ 0) (hlast : a.group (i - 1) = 0) (hg : a.group i ≠ 0) :
    insertStep a i (os, false) = (os ++ ascii "::" ++ numeral 16 (a.group i), true) := by
  simp only [insertStep, word_eq_zero_iff, hi, hlast, hg, ne_eq, not_false_eq_true, and_true, Bool.false_eq_true,
    if_false, if_true, group_eq, List.append_assoc]
  rfl

theorem insertStep_used (hi : i ≠ 0) : insertStep a i (os, true) = (os ++ 58 :: numeral 16 (a.group i), true) := by
  simp only [insertStep, hi, ne_eq, not_true_eq_false, not_false_eq_true, and_false, if_false, if_true, group_eq,
    List.append_assoc]
  rfl

end

/-- the group before the next one -/
theorem groups_last (a : In6Addr) {i : ℕ} (hi : i ≠ 0) : a.groups i = a.groups (i - 1) ++ [a.group (i - 1)] := by
  obtain ⟨j, rfl⟩ := Nat.exists_eq_succ_of_ne_zero hi
  exact groups_succ a j

theorem groups_eq_nil_iff (a : In6Addr) (i : ℕ) : a.groups i = [] ↔ i = 0 := by
  rw [In6Addr.groups, List.map_eq_nil_iff, List.range_eq_nil]

section

variable {os : Bytes} {a : In6Addr} {i : ℕ}

/-- a group behind groups without zero -/
theorem printed_next {x : List ℕ} (hx : 0 ∉ x) (hgs : a.groups i = x) (hg : a.group i ≠ 0) :
    Printed os (x ++ [a.group i]) (insertStep a i (os ++ joined x, false)) := by
  have hnew : 0 ∉ x ++ [a.group i] := by
    rw [List.mem_append, List.mem_singleton, not_or]
    exact ⟨hx, hg.symm⟩
  have hkeep : Printed os _ _ := .skipping (x ++ [a.group i]) 0 hnew
  rw [List.replicate_zero, List.append_nil] at hkeep
  by_cases hi : i = 0
  · subst hi
    subst hgs
    rw [(groups_eq_nil_iff a 0).mpr rfl, List.nil_append, joined_singleton] at hkeep
    rwa [(groups_eq_nil_iff a 0).mpr rfl, insertStep_first a _ hg, joined_nil, List.append_nil]
  · have hne : x ≠ [] := by
      rw [← hgs]
      exact mt (groups_eq_nil_iff a i).mp hi
    have hlast : a.group (i - 1) ≠ 0 := by
      intro h
      apply hx
      rw [← hgs, groups_last a hi, h]
      exact List.mem_append_right _ List.mem_cons_self
    rwa [insertStep_next a _ hi hlast hg, List.append_assoc, ← joined_snoc hne]

/-- the first group behind zeros -/
theorem printed_raise {x : List ℕ} {n : ℕ} (hgs : a.groups i = x ++ List.replicate (n + 1) 0) (hg : a.group i ≠ 0) :
    Printed os (x ++ List.replicate (n + 1) 0 ++ [a.group i]) (insertStep a i (os ++ joined x, false)) := by
  have hi : i ≠ 0 := by
    intro h
    rw [(groups_eq_nil_iff a i).mpr h, List.replicate_succ'] at hgs
    simp at hgs
  have hlast : a.group (i - 1) = 0 := by
    rw [groups_last a hi, List.replicate_succ', ← List.append_assoc] at hgs
    exact (List.cons.inj (List.append_inj_right' hgs rfl)).1
  rw [insertStep_raise a _ hi hlast hg]
  have huse : Printed os _ _ := .used x n [a.group i] (List.cons_ne_nil _ _)
  rwa [joined_singleton] at huse

theorem printed_step {s : Bytes × Bool} (h : Printed os (a.groups i) s) :
    Printed os (a.groups (i + 1)) (insertStep a i s) := by
  rw [groups_succ]
  generalize hgs : a.groups i = gs at h
  cases h with
  | skipping x n hx =>
    by_cases hg : a.group i = 0
    · rw [insertStep_skip a _ hg, hg, List.append_assoc, ← List.replicate_succ']
      exact .skipping x (n + 1) hx
    · cases n with
      | zero =>
        rw [List.replicate_zero, List.append_nil] at hgs ⊢
        exact printed_next hx hgs hg
      | succ n => exact printed_raise hgs hg
  | used x n y hy =>
    have hi : i ≠ 0 := by
      intro h
      rw [(groups_eq_nil_iff a i).mpr h] at hgs
      exact List.append_ne_nil_of_right_ne_nil _ hy hgs.symm
    rw [insertStep_used a _ hi, List.append_assoc _ y, List.append_assoc _ (joined y), ← joined_snoc hy]
    exact .used x n (y ++ [a.group i]) (List.append_ne_nil_of_left_ne_nil hy _)

end

theorem printed_loop (os : Bytes) (a : In6Addr) (k : ℕ) : Printed os (a.groups k) (insertLoop a os k) := by
  induction k with
  | zero =>
    have h : Printed os _ _ := .skipping [] 0 List.not_mem_nil
    rwa [List.replicate_zero, List.append_nil, joined_nil, List.append_nil] at h
  | succ k ih => exact printed_step ih

/-- the groups as a text of the grammar: all of them, or two rows around the zeros -/
inductive Written : List ℕ → Bytes → Prop
  | all (gs : List ℕ) : Written gs (joined gs)
  | around (a : List ℕ) (n : ℕ) (b : List ℕ) :
      Written (a ++ List.replicate (n + 1) 0 ++ b) (joined a ++ 58 :: 58 :: joined b)

/-- the text between the brackets -/
theorem written_insert (a : IPv6Address) :
    ∃ t, a.insert = ascii "[" ++ t ++ ascii "]:" ++ decimal a.getPort.toNat ∧ Written (a.addr.sin6Addr.groups 8) t := by
  have hlast : (a.addr.sin6Addr.groups 8).getLast? = some (a.addr.sin6Addr.group 7) := rfl
  have hprinted := printed_loop (ascii "[") a.addr.sin6Addr 8
  rw [IPv6Address.insert]
  generalize insertLoop a.addr.sin6Addr (ascii "[") 8 = s at hprinted
  generalize a.addr.sin6Addr.groups 8 = gs at hprinted hlast ⊢
  simp only [word_eq_zero_iff]
  cases hprinted with
  | skipping x n hx =>
    cases n with
    | zero =>
      have hne : a.addr.sin6Addr.group 7 ≠ 0 := by
        intro h
        apply hx
        rw [List.replicate_zero, List.append_nil, h] at hlast
        exact List.mem_of_getLast? hlast
      refine ⟨joined x, ?_, ?_⟩
      · rw [if_neg fun h => hne h.2, List.append_assoc _ (ascii "]:")]
        rfl
      · rw [List.replicate_zero, List.append_nil]
        exact .all x
    | succ n =>
      have hzero : a.addr.sin6Addr.group 7 = 0 := by
        rw [List.replicate_succ', ← List.append_assoc, List.getLast?_concat] at hlast
        exact (Option.some.inj hlast).symm
      refine ⟨joined x ++ ascii "::", ?_, ?_⟩
      · rw [if_pos ⟨Bool.false_ne_true, hzero⟩, List.append_assoc _ (ascii "]:"), List.append_assoc (ascii "[")]
        rfl
      · have h := Written.around x n []
        rwa [List.append_nil, joined_nil] at h
  | used x n y hy =>
    refine ⟨joined x ++ ascii "::" ++ joined y, ?_, ?_⟩
    · rw [if_neg fun h => h.1 rfl, List.append_assoc _ (ascii "]:"), ← List.append_assoc (ascii "["),
        ← List.append_assoc (ascii "[")]
      rfl
    · rw [List.append_assoc (joined x)]
      exact .around x n y

/-! ## Reading -/

theorem numeral_plain {c : UInt8} (hc : 16 ≤ digitVal c) (n : ℕ) : c ∉ numeral 16 n :=
  not_mem_numeral (by decide) le_rfl hc n

theorem not_mem_joined {c : UInt8} (hc : 16 ≤ digitVal c) (hcolon : c ≠ 58) (gs : List ℕ) : c ∉ joined gs := by
  induction gs with
  | nil =>
    rw [joined_nil]
    exact List.not_mem_nil
  | cons g gs ih =>
    by_cases hlast : gs = []
    · rw [hlast, joined_singleton]
      exact numeral_plain hc g
    · rw [joined_cons g hlast, List.mem_append, List.mem_cons, not_or, not_or]
      exact ⟨numeral_plain hc g, hcolon, ih⟩

theorem joined_ne_nil {gs : List ℕ} (h : gs ≠ []) : joined gs ≠ [] := by
  cases gs with
  | nil => exact absurd rfl h
  | cons g gs =>
    by_cases hlast : gs = []
    · rw [hlast, joined_singleton]
      exact numeral_ne_nil 16 g
    · rw [joined_cons g hlast]
      exact List.append_ne_nil_of_left_ne_nil (numeral_ne_nil 16 g) _

theorem hexGroup_numeral {g : ℕ} (hg : g < 65536) : hexGroup (numeral 16 g) = some g := by
  have hlen : (numeral 16 g).length ≤ 4 := numeral_length (by decide) (by decide) (hg.trans_eq (by norm_num))
  rw [hexGroup, if_pos ⟨numeral_ne_nil 16 g, hlen⟩]
  exact value_numeral (by decide) le_rfl g

theorem hexGroups_joined {gs : List ℕ} (hgs : ∀ g ∈ gs, g < 65536) : hexGroups (joined gs) = some gs := by
  by_cases hempty : gs = []
  · rw [hempty, joined_nil, hexGroups, if_pos rfl]
  · have hpieces : (joined gs).splitOn 58 = gs.map (numeral 16) := by
      apply List.splitOn_intercalate
      · intro p hp
        obtain ⟨g, _, rfl⟩ := List.mem_map.mp hp
        exact numeral_plain (by decide) g
      · rwa [ne_eq, List.map_eq_nil_iff]
    rw [hexGroups, if_neg (joined_ne_nil hempty), hpieces]
    clear hempty hpieces
    induction gs with
    | nil => rfl
    | cons g gs ih =>
      rw [List.map_cons, List.mapM_cons, hexGroup_numeral (hgs g List.mem_cons_self),
        ih fun x hx => hgs x (List.mem_cons_of_mem g hx)]
      rfl

/-- a byte that is no colon in front -/
theorem doubleColon_cons {c : UInt8} (hc : c ≠ 58) (s : Bytes) :
    doubleColon (c :: s) = (doubleColon s).map fun x => (c :: x.1, x.2) := by
  rw [doubleColon]
  intro s' h _
  exact absurd h hc

/-- a colon in front of another byte -/
theorem doubleColon_colon {c : UInt8} (hc : c ≠ 58) (s : Bytes) :
    doubleColon (58 :: c :: s) = (doubleColon (c :: s)).map fun x => (58 :: x.1, x.2) := by
  rw [doubleColon]
  intro s' _ h
  exact absurd (List.cons.inj h).1 hc

theorem doubleColon_append {p : Bytes} (hp : 58 ∉ p) (s : Bytes) :
    doubleColon (p ++ s) = (doubleColon s).map fun x => (p ++ x.1, x.2) := by
  induction p with
  | nil => exact Option.map_id'.symm
  | cons c p ih =>
    rw [List.mem_cons, not_or] at hp
    rw [List.cons_append, doubleColon_cons (Ne.symm hp.1), ih hp.2, Option.map_map]
    rfl

/-- a row starts with a digit -/
theorem joined_head {gs : List ℕ} (h : gs ≠ []) : ∃ c t, joined gs = c :: t ∧ c ≠ 58 := by
  cases gs with
  | nil => exact absurd rfl h
  | cons g gs =>
    obtain ⟨c, t, hct⟩ := List.exists_cons_of_ne_nil (numeral_ne_nil 16 g)
    have hc : c ≠ 58 := by
      intro heq
      apply numeral_plain (c := 58) (by decide) g
      rw [hct, heq]
      exact List.mem_cons_self
    by_cases hlast : gs = []
    · exact ⟨c, t, by rw [hlast, joined_singleton, hct], hc⟩
    · exact ⟨c, t ++ 58 :: joined gs, by rw [joined_cons g hlast, hct, List.cons_append], hc⟩

/-- there is no `::` in a row, nor at its end -/
theorem doubleColon_joined (gs : List ℕ) (s : Bytes) :
    doubleColon (joined gs ++ s) = (doubleColon s).map fun x => (joined gs ++ x.1, x.2) := by
  induction gs with
  | nil => exact Option.map_id'.symm
  | cons g gs ih =>
    have hdigits : 58 ∉ numeral 16 g := numeral_plain (by decide) g
    by_cases hlast : gs = []
    · rw [hlast, joined_singleton]
      exact doubleColon_append hdigits s
    · obtain ⟨c, t, hct, hc⟩ := joined_head hlast
      have hcolon :
          doubleColon (58 :: (joined gs ++ s)) = (doubleColon (joined gs ++ s)).map fun x => (58 :: x.1, x.2) := by
        rw [hct]
        exact doubleColon_colon hc (t ++ s)
      rw [joined_cons g hlast, List.append_assoc, List.cons_append, doubleColon_append hdigits, hcolon, ih,
        Option.map_map, Option.map_map]
      apply congrArg (Option.map · (doubleColon s))
      funext x
      exact congrArg (·, x.2) (List.append_assoc (numeral 16 g) (58 :: joined gs) x.1).symm

theorem parse_written {gs : List ℕ} {t : Bytes} (h : Written gs t) (hlen : gs.length = 8) (hgs : ∀ g ∈ gs, g < 65536) :
    parseGroups t = some gs := by
  cases h with
  | all =>
    have hnone : doubleColon (joined gs) = none := by
      have h := doubleColon_joined gs []
      rwa [List.append_nil] at h
    simp only [parseGroups, hnone, hexGroups_joined hgs]
    exact if_pos hlen
  | around a n b =>
    have hsome : doubleColon (joined a ++ 58 :: 58 :: joined b) = some (joined a, joined b) := by
      rw [doubleColon_joined]
      exact congrArg (fun x => some (x, joined b)) (List.append_nil (joined a))
    have ha : hexGroups (joined a) = some a :=
      hexGroups_joined fun g hg => hgs g (List.mem_append_left b (List.mem_append_left _ hg))
    have hb : hexGroups (joined b) = some b := hexGroups_joined fun g hg => hgs g (List.mem_append_right _ hg)
    rw [List.length_append, List.length_append, List.length_replicate] at hlen
    have hzeros : 8 - (a.length + b.length) = n + 1 := by omega
    simp only [parseGroups, hsome, ha, hb]
    exact (if_pos (by omega)).trans (by rw [hzeros])

/-! ## The bytes -/

theorem flatMap_pairs (l : Bytes) (k : ℕ) :
    ((List.range k).flatMap fun i => (l.drop (2 * i)).take 2) = l.take (2 * k) := by
  induction k with
  | zero => rfl
  | succ k ih => rw [List.range_succ, List.flatMap_append, ih, List.flatMap_singleton, Nat.mul_succ, List.take_add]

/-- a group is stored with its high byte first -/
theorem groupBytes_swap {bs : Bytes} (h : bs.length = 2) : groupBytes (swapPort (ofImage .little 2 bs)).toNat = bs := by
  obtain ⟨x, y, rfl⟩ := List.length_eq_two.mp h
  have hx := x.toNat_lt
  have hy := y.toNat_lt
  have hvalue : (swapPort (ofImage .little 2 [x, y])).toNat = y.toNat + 256 * x.toNat := by
    have hsum : ofLE [y, x] = y.toNat + 256 * x.toNat := rfl
    have hrev : [x, y].reverse = [y, x] := rfl
    rw [swapPort, byteswap_ofImage h, BitVec.toNat_ofNat, hrev, hsum]
    apply Nat.mod_eq_of_lt
    omega
  have hhigh : (y.toNat + 256 * x.toNat) / 256 = x.toNat := by omega
  have hlow : (y.toNat + 256 * x.toNat) % 256 = y.toNat := by omega
  rw [groupBytes, hvalue, hhigh, hlow, Nat.toUInt8_eq, Nat.toUInt8_eq, UInt8.ofNat_toNat, UInt8.ofNat_toNat]

theorem flatMap_groups (a : In6Addr) : (a.groups 8).flatMap groupBytes = a.s6Addr := by
  have hpair : ∀ i ∈ List.range 8, groupBytes (a.group i) = (a.s6Addr.drop (2 * i)).take 2 := by
    intro i hi
    apply groupBytes_swap
    rw [List.length_take, List.length_drop, a.size]
    have := List.mem_range.mp hi
    omega
  calc (a.groups 8).flatMap groupBytes
      = (List.range 8).flatMap fun i => groupBytes (a.group i) := List.flatMap_map a.group groupBytes (List.range 8)
    _ = (List.range 8).flatMap fun i => (a.s6Addr.drop (2 * i)).take 2 := List.flatMap_congr hpair
    _ = a.s6Addr.take 16 := flatMap_pairs a.s6Addr 8
    _ = a.s6Addr := List.take_of_length_le a.size.le

theorem inetPton6_written {a : In6Addr} {t : Bytes} (h : Written (a.groups 8) t) : inetPton6 t = some a := by
  have hsmall : ∀ g ∈ a.groups 8, g < 65536 := by
    intro g hg
    obtain ⟨i, _, rfl⟩ := List.mem_map.mp hg
    exact (swapPort (a.word i)).isLt
  have hlen : (a.groups 8).length = 8 := by rw [In6Addr.groups, List.length_map, List.length_range]
  rw [inetPton6, parse_written h hlen hsmall, Option.bind_some, dif_pos (by rw [flatMap_groups, a.size])]
  exact congrArg some (In6Addr.ext (flatMap_groups a))

/-- no bracket ends the text early -/
theorem not_mem_written {gs : List ℕ} {t : Bytes} (h : Written gs t) : 93 ∉ t := by
  have hrow : ∀ gs, 93 ∉ joined gs := not_mem_joined (by decide) (by decide)
  cases h with
  | all => exact hrow gs
  | around a n b =>
    rw [List.mem_append, List.mem_cons, List.mem_cons, not_or, not_or, not_or]
    exact ⟨hrow a, by decide, by decide, hrow b⟩

/-- **The text of an IPv6 address is read back.** Between the brackets is a text that means the address, behind them
the port; two addresses with the same text are equal, and so are their ports. -/
theorem ipv6_text (a b : IPv6Address) :
    (∃ t, a.insert = ascii "[" ++ t ++ ascii "]:" ++ decimal a.getPort.toNat ∧ 93 ∉ t ∧
      inetPton6 t = some a.addr.sin6Addr ∧
      IPv6Address.create t a.getPort = some (IPv6Address.ofBytes a.addr.sin6Addr a.getPort)) ∧
    (a.insert = b.insert → a.addr.sin6Addr = b.addr.sin6Addr ∧ a.getPort = b.getPort) := by
  obtain ⟨t, ht, hwritten⟩ := written_insert a
  have hread := inetPton6_written hwritten
  refine ⟨⟨t, ht, not_mem_written hwritten, hread, ?_⟩, ?_⟩
  · rw [IPv6Address.create, hread]
    rfl
  · intro heq
    obtain ⟨u, hu, hwritten'⟩ := written_insert b
    have htext : t ++ 93 :: (58 :: decimal a.getPort.toNat) = u ++ 93 :: (58 :: decimal b.getPort.toNat) := by
      have h := ht.symm.trans (heq.trans hu)
      rw [List.append_assoc, List.append_assoc, List.append_assoc, List.append_assoc] at h
      exact List.append_cancel_left h
    obtain ⟨rfl, hport⟩ := append_sep_inj (not_mem_written hwritten) (not_mem_written hwritten') htext
    have hsame : some a.addr.sin6Addr = some b.addr.sin6Addr := hread.symm.trans (inetPton6_written hwritten')
    have hdecimal : decimal a.getPort.toNat = decimal b.getPort.toNat := (List.cons.inj hport).2
    exact ⟨Option.some.inj hsame, BitVec.eq_of_toNat_eq (decimal_inj hdecimal)⟩

/-- the first run of zeros is the one that is left out -/
example : (IPv6Address.ofBytes ⟨[0xfe, 0x80, 0, 0, 0, 0, 0, 0, 0, 1, 0, 0, 0, 0, 0, 0], rfl⟩ 80).insert =
    ascii "[fe80::1:0:0:0]:80" := by decide +kernel

end Sylar.Address
