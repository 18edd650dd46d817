/-
Percent coding of strings (`util.cpp`, `StringUtil::UrlEncode` and `StringUtil::UrlDecode`).

Both functions return their argument itself as long as they meet no byte they have to change. At the first one they
copy what they have passed, and from there on they append every byte. `urlEncodeLoop` and `urlDecodeLoop` are these
loops: the text so far is the copy if there is one, and else the bytes passed.
- `urlEncodeLoop_spec`, `urlDecodeLoop_spec`: the text so far, followed by the plain coding of what is left, is the
  result.
- `plainDecode_plainEncode`: the plain decoder reads the code of a byte back, and goes on behind it.
- `url_roundtrip`: both functions are the plain ones, the code is read back, and it is made of unreserved bytes, `%`,
  hex digits and `+` alone.
-/
import Mathlib.Tactic
import Sylar.Core.Words
import Sylar.Http.Message

namespace Sylar.Util

open Sylar.Core Sylar.Http

/-! ## The tables -/

/-- `uri_chars`: the rows of the table, and the half of it that is zero -/
def uriChars : List ℕ :=
  [0, 0, 0, 0, 0, 0, 0, 0, 0, 0, 0, 0, 0, 0, 0, 0,
    0, 0, 0, 0, 0, 0, 0, 0, 0, 0, 0, 0, 0, 0, 0, 0,
    0, 0, 0, 0, 0, 0, 0, 0, 0, 0, 0, 0, 0, 1, 1, 0,
    1, 1, 1, 1, 1, 1, 1, 1, 1, 1, 0, 0, 0, 1, 0, 0,
    0, 1, 1, 1, 1, 1, 1, 1, 1, 1, 1, 1, 1, 1, 1, 1,
    1, 1, 1, 1, 1, 1, 1, 1, 1, 1, 1, 0, 0, 0, 0, 1,
    0, 1, 1, 1, 1, 1, 1, 1, 1, 1, 1, 1, 1, 1, 1, 1,
    1, 1, 1, 1, 1, 1, 1, 1, 1, 1, 1, 0, 0, 0, 1, 0] ++ List.replicate 128 0

/-- `xdigit_chars` -/
def xdigitChars : List UInt8 :=
  [0, 0, 0, 0, 0, 0, 0, 0, 0, 0, 0, 0, 0, 0, 0, 0,
    0, 0, 0, 0, 0, 0, 0, 0, 0, 0, 0, 0, 0, 0, 0, 0,
    0, 0, 0, 0, 0, 0, 0, 0, 0, 0, 0, 0, 0, 0, 0, 0,
    0, 1, 2, 3, 4, 5, 6, 7, 8, 9, 0, 0, 0, 0, 0, 0,
    0, 10, 11, 12, 13, 14, 15, 0, 0, 0, 0, 0, 0, 0, 0, 0,
    0, 0, 0, 0, 0, 0, 0, 0, 0, 0, 0, 0, 0, 0, 0, 0,
    0, 10, 11, 12, 13, 14, 15, 0, 0, 0, 0, 0, 0, 0, 0, 0,
    0, 0, 0, 0, 0, 0, 0, 0, 0, 0, 0, 0, 0, 0, 0, 0] ++ List.replicate 128 0

def hexdigits : Bytes := ascii "0123456789ABCDEF"

/-- `CHAR_IS_UNRESERVED` -/
def charIsUnreserved (c : UInt8) : Bool := uriChars.getD c.toNat 0 ≠ 0

/-- `isxdigit`: a `char` that is negative is no digit -/
def isxdigit (c : UInt8) : Bool :=
  (48 ≤ c.toNat ∧ c.toNat ≤ 57) ∨ (65 ≤ c.toNat ∧ c.toNat ≤ 70) ∨ (97 ≤ c.toNat ∧ c.toNat ≤ 102)

def xdigit (c : UInt8) : UInt8 := xdigitChars.getD c.toNat 0

def hexdigit (n : ℕ) : UInt8 := hexdigits.getD n 0

/-! ## The loops -/

/-- the loop of `UrlEncode` from byte `i` on; `ss` is the copy -/
def urlEncodeLoop (str : Bytes) (spaceAsPlus : Bool) : Bytes → ℕ → Option Bytes → Option Bytes
  | [], _, ss => ss
  | c :: rest, i, ss =>
    if !charIsUnreserved c then
      let s := ss.getD (str.take i)
      if c = 32 ∧ spaceAsPlus then urlEncodeLoop str spaceAsPlus rest (i + 1) (some (s ++ [43]))
      else
        urlEncodeLoop str spaceAsPlus rest (i + 1)
          (some (s ++ [37, hexdigit (c.toNat >>> 4), hexdigit (c.toNat &&& 0xf)]))
    else urlEncodeLoop str spaceAsPlus rest (i + 1) (ss.map (· ++ [c]))

def urlEncode (str : Bytes) (spaceAsPlus : Bool := true) : Bytes :=
  (urlEncodeLoop str spaceAsPlus str 0 none).getD str

/-- `*c == '%' && (c + 2) < end && isxdigit(*(c + 1)) && isxdigit(*(c + 2))`, where `rest` is what stands behind `c` -/
def isEscape (c : UInt8) (rest : Bytes) : Bool :=
  c = 37 ∧ 2 ≤ rest.length ∧ isxdigit (rest.getD 0 0) ∧ isxdigit (rest.getD 1 0)

/-- the byte that the two digits stand for -/
def escaped (rest : Bytes) : UInt8 := xdigit (rest.getD 0 0) <<< 4 ||| xdigit (rest.getD 1 0)

/-- the loop of `UrlDecode` from byte `i` on -/
def urlDecodeLoop (str : Bytes) (spaceAsPlus : Bool) : Bytes → ℕ → Option Bytes → Option Bytes
  | [], _, ss => ss
  | c :: rest, i, ss =>
    if c = 43 ∧ spaceAsPlus then
      urlDecodeLoop str spaceAsPlus rest (i + 1) (some (ss.getD (str.take i) ++ [32]))
    else if isEscape c rest then
      urlDecodeLoop str spaceAsPlus (rest.drop 2) (i + 3) (some (ss.getD (str.take i) ++ [escaped rest]))
    else urlDecodeLoop str spaceAsPlus rest (i + 1) (ss.map (· ++ [c]))
termination_by rest => rest.length
decreasing_by all_goals simp only [List.length_cons, List.length_drop]; omega

def urlDecode (str : Bytes) (spaceAsPlus : Bool := true) : Bytes :=
  (urlDecodeLoop str spaceAsPlus str 0 none).getD str

/-! ## The plain coding -/

/-- what a byte is written as -/
def encodeByte (spaceAsPlus : Bool) (c : UInt8) : Bytes :=
  if charIsUnreserved c then [c]
  else if c = 32 ∧ spaceAsPlus then [43]
  else [37, hexdigit (c.toNat / 16), hexdigit (c.toNat % 16)]

def plainEncode (spaceAsPlus : Bool) (s : Bytes) : Bytes := s.flatMap (encodeByte spaceAsPlus)

/-- what a byte that starts no code stands for -/
def plainByte (spaceAsPlus : Bool) (c : UInt8) : UInt8 := if c = 43 ∧ spaceAsPlus then 32 else c

/-- a `%` in front of two hex digits is the byte of that value -/
def plainDecode (spaceAsPlus : Bool) : Bytes → Bytes
  | c :: h :: l :: rest =>
    if c = 37 ∧ isxdigit h ∧ isxdigit l then (xdigit h * 16 + xdigit l) :: plainDecode spaceAsPlus rest
    else plainByte spaceAsPlus c :: plainDecode spaceAsPlus (h :: l :: rest)
  | c :: rest => plainByte spaceAsPlus c :: plainDecode spaceAsPlus rest
  | [] => []

/-! ## The loops are the plain coding -/

/-- a byte that needs no change is passed, or appended to the copy -/
theorem keep_byte {str rest : Bytes} {c : UInt8} {i : ℕ} (hi : str.drop i = c :: rest) (ss : Option Bytes) :
    (ss.map (· ++ [c])).getD (str.take (i + 1)) = ss.getD (str.take i) ++ [c] := by
  have hget : str[i]? = some c := by rw [← List.head?_drop, hi, List.head?_cons]
  cases ss with
  | none => rw [Option.map_none, Option.getD_none, Option.getD_none, List.take_add_one, hget, Option.toList_some]
  | some s => rfl

theorem drop_next {str rest : Bytes} {c : UInt8} {i : ℕ} (hi : str.drop i = c :: rest) : str.drop (i + 1) = rest := by
  rw [← List.tail_drop, hi, List.tail_cons]

theorem urlEncodeLoop_spec {str : Bytes} (f : Bool) {rest : Bytes} {i : ℕ} (hi : str.drop i = rest)
    (ss : Option Bytes) :
    (urlEncodeLoop str f rest i ss).getD str = ss.getD (str.take i) ++ plainEncode f rest := by
  induction rest generalizing i ss with
  | nil =>
    have htake : str.take i = str := List.take_of_length_le (List.drop_eq_nil_iff.mp hi)
    rw [urlEncodeLoop, htake, plainEncode, List.flatMap_nil, List.append_nil]
  | cons c rest ih =>
    have hstep : plainEncode f (c :: rest) = encodeByte f c ++ plainEncode f rest := List.flatMap_cons
    rw [urlEncodeLoop, hstep, encodeByte]
    by_cases hc : charIsUnreserved c = true
    · simp only [hc, Bool.not_true, Bool.false_eq_true, if_false, if_true]
      rw [ih (drop_next hi), keep_byte hi, List.append_assoc]
    · simp only [hc, Bool.not_false, if_true, if_false, Bool.false_eq_true]
      by_cases hspace : c = 32 ∧ f = true
      · rw [if_pos hspace, if_pos hspace, ih (drop_next hi), Option.getD_some, List.append_assoc]
      · rw [if_neg hspace, if_neg hspace, ih (drop_next hi), Option.getD_some, List.append_assoc]
        rw [Nat.shiftRight_eq_div_pow, show 0xf = 2 ^ 4 - 1 from rfl, Nat.and_two_pow_sub_one_eq_mod]

/-! ## Hex digits -/

theorem xdigit_lt : ∀ c, isxdigit c = true → (xdigit c).toNat < 16 := forall_byte (by decide +kernel)

theorem hexdigit_spec : ∀ n < 16, isxdigit (hexdigit n) = true ∧ (xdigit (hexdigit n)).toNat = n := by decide +kernel

/-- two digits put together bit by bit -/
theorem join_digits {a b : UInt8} (ha : a.toNat < 16) (hb : b.toNat < 16) : a <<< 4 ||| b = a * 16 + b := by
  have htable : ∀ m : ℕ, m < 16 → ∀ n : ℕ, n < 16 → m.toUInt8 <<< 4 ||| n.toUInt8 = m.toUInt8 * 16 + n.toUInt8 := by
    decide +kernel
  have h := htable a.toNat ha b.toNat hb
  rwa [Nat.toUInt8_eq, Nat.toUInt8_eq, UInt8.ofNat_toNat, UInt8.ofNat_toNat] at h

theorem isEscape_cons (c h l : UInt8) (rest : Bytes) :
    isEscape c (h :: l :: rest) = true ↔ c = 37 ∧ isxdigit h = true ∧ isxdigit l = true := by
  simp [isEscape]

theorem digits_of_isEscape {c : UInt8} {rest : Bytes} (hesc : isEscape c rest = true) :
    ∃ h l t, rest = h :: l :: t ∧ isxdigit h = true ∧ isxdigit l = true := by
  match rest with
  | [] => simp [isEscape] at hesc
  | [h] => simp [isEscape] at hesc
  | h :: l :: t =>
    obtain ⟨-, hh, hl⟩ := (isEscape_cons c h l t).mp hesc
    exact ⟨h, l, t, rfl, hh, hl⟩

theorem escaped_cons {h l : UInt8} (hh : isxdigit h = true) (hl : isxdigit l = true) (rest : Bytes) :
    escaped (h :: l :: rest) = xdigit h * 16 + xdigit l := join_digits (xdigit_lt h hh) (xdigit_lt l hl)

/-- one step of the plain decoder, by the test of the loop -/
theorem plainDecode_cons (f : Bool) (c : UInt8) (rest : Bytes) :
    plainDecode f (c :: rest) =
      if isEscape c rest then escaped rest :: plainDecode f (rest.drop 2) else plainByte f c :: plainDecode f rest := by
  match rest with
  | [] => simp [plainDecode, isEscape]
  | [h] => simp [plainDecode, isEscape]
  | h :: l :: rest =>
    rw [plainDecode]
    by_cases hesc : c = 37 ∧ isxdigit h = true ∧ isxdigit l = true
    · rw [if_pos hesc, if_pos ((isEscape_cons c h l rest).mpr hesc), escaped_cons hesc.2.1 hesc.2.2]
      rfl
    · rw [if_neg hesc, if_neg fun hc => hesc ((isEscape_cons c h l rest).mp hc)]

theorem urlDecodeLoop_spec {str : Bytes} (f : Bool) {rest : Bytes} {i : ℕ} (hi : str.drop i = rest)
    (ss : Option Bytes) :
    (urlDecodeLoop str f rest i ss).getD str = ss.getD (str.take i) ++ plainDecode f rest := by
  fun_induction urlDecodeLoop str f rest i ss with
  | case1 i ss =>
    have htake : str.take i = str := List.take_of_length_le (List.drop_eq_nil_iff.mp hi)
    rw [htake, plainDecode, List.append_nil]
  | case2 c rest i ss hplus ih =>
    have hno : isEscape c rest = false := by
      rw [hplus.1]
      rfl
    rw [ih (drop_next hi), plainDecode_cons, hno, plainByte, if_pos hplus, Option.getD_some, List.append_assoc]
    rfl
  | case3 c rest i ss hplus hesc ih =>
    have hdrop : str.drop (i + 3) = rest.drop 2 := by rw [← drop_next hi, List.drop_drop]
    rw [ih hdrop, plainDecode_cons, if_pos hesc, Option.getD_some, List.append_assoc]
    rfl
  | case4 c rest i ss hplus hesc ih =>
    rw [ih (drop_next hi), plainDecode_cons, if_neg hesc, plainByte, if_neg hplus, keep_byte hi, List.append_assoc]
    rfl

theorem urlEncode_eq (s : Bytes) (f : Bool) : urlEncode s f = plainEncode f s :=
  urlEncodeLoop_spec f (List.drop_zero : s.drop 0 = s) none

theorem urlDecode_eq (s : Bytes) (f : Bool) : urlDecode s f = plainDecode f s :=
  urlDecodeLoop_spec f (List.drop_zero : s.drop 0 = s) none

/-! ## Reading the code back -/

/-- no unreserved byte is `%` or `+`, and none of them separates pairs -/
theorem unreserved_plain : ∀ c, charIsUnreserved c = true → c ∉ [(37 : UInt8), 43, 38, 59] :=
  forall_byte (by decide +kernel)

/-- neither is a hex digit -/
theorem isxdigit_plain {c : UInt8} (h : isxdigit c = true) : c ∉ [(37 : UInt8), 43, 38, 59] := by
  intro hc
  have hno : ∀ x ∈ [(37 : UInt8), 43, 38, 59], isxdigit x = false := by decide
  rw [hno c hc] at h
  cases h

/-- a byte other than `%` starts no code -/
theorem plainDecode_cons_of_ne (f : Bool) {c : UInt8} (hc : c ≠ 37) (rest : Bytes) :
    plainDecode f (c :: rest) = plainByte f c :: plainDecode f rest := by
  have hno : ¬isEscape c rest = true := by simp [isEscape, hc]
  rw [plainDecode_cons, if_neg hno]

/-- the code of a byte is read as that byte, whatever stands behind it -/
theorem plainDecode_encodeByte (f : Bool) (c : UInt8) (rest : Bytes) :
    plainDecode f (encodeByte f c ++ rest) = c :: plainDecode f rest := by
  unfold encodeByte
  split_ifs with hc hspace
  · have hplain := unreserved_plain c hc
    simp only [List.mem_cons, not_or] at hplain
    rw [List.cons_append, List.nil_append, plainDecode_cons_of_ne f hplain.1, plainByte, if_neg fun h => hplain.2.1 h.1]
  · rw [List.cons_append, List.nil_append, plainDecode_cons_of_ne f (by decide), plainByte, if_pos ⟨rfl, hspace.2⟩,
      hspace.1]
  · obtain ⟨hhigh, hhigh'⟩ := hexdigit_spec (c.toNat / 16) (Nat.div_lt_of_lt_mul c.toNat_lt)
    obtain ⟨hlow, hlow'⟩ := hexdigit_spec (c.toNat % 16) (Nat.mod_lt _ (by decide))
    have hvalue : xdigit (hexdigit (c.toNat / 16)) * 16 + xdigit (hexdigit (c.toNat % 16)) = c := by
      apply UInt8.toNat.inj
      rw [UInt8.toNat_add, UInt8.toNat_mul, hhigh', hlow']
      have hlt := c.toNat_lt
      have h16 : UInt8.toNat 16 = 16 := rfl
      rw [h16]
      omega
    rw [List.cons_append, List.cons_append, List.cons_append, List.nil_append, plainDecode, if_pos ⟨rfl, hhigh, hlow⟩,
      hvalue]

theorem plainDecode_plainEncode (f : Bool) (s rest : Bytes) :
    plainDecode f (plainEncode f s ++ rest) = s ++ plainDecode f rest := by
  induction s with
  | nil => rfl
  | cons c s ih =>
    have hstep : plainEncode f (c :: s) = encodeByte f c ++ plainEncode f s := List.flatMap_cons
    rw [hstep, List.append_assoc, plainDecode_encodeByte, ih, List.cons_append]

/-- the bytes of a code -/
theorem mem_plainEncode {f : Bool} {s : Bytes} {c : UInt8} (h : c ∈ plainEncode f s) :
    charIsUnreserved c = true ∨ c = 37 ∨ isxdigit c = true ∨ f = true ∧ c = 43 := by
  obtain ⟨x, -, hx⟩ := List.mem_flatMap.mp h
  unfold encodeByte at hx
  split_ifs at hx with hunres hspace
  · rw [List.mem_singleton.mp hx]
    exact Or.inl hunres
  · rw [List.mem_singleton.mp hx]
    exact Or.inr (Or.inr (Or.inr ⟨hspace.2, rfl⟩))
  · have hhigh := (hexdigit_spec (x.toNat / 16) (Nat.div_lt_of_lt_mul x.toNat_lt)).1
    have hlow := (hexdigit_spec (x.toNat % 16) (Nat.mod_lt _ (by decide))).1
    simp only [List.mem_cons, List.not_mem_nil, or_false] at hx
    rcases hx with rfl | rfl | rfl
    · exact Or.inr (Or.inl rfl)
    · exact Or.inr (Or.inr (Or.inl hhigh))
    · exact Or.inr (Or.inr (Or.inl hlow))

/-- a code has no byte that separates pairs -/
theorem not_mem_plainEncode (f : Bool) (s : Bytes) {sep : UInt8} (hsep : sep ∈ [(38 : UInt8), 59]) :
    sep ∉ plainEncode f s := by
  have hplain : sep ∈ [(37 : UInt8), 43, 38, 59] := List.mem_cons_of_mem _ (List.mem_cons_of_mem _ hsep)
  intro hmem
  rcases mem_plainEncode hmem with h | h | h | h
  · exact unreserved_plain sep h hplain
  · rw [h] at hsep
    revert hsep
    decide
  · exact isxdigit_plain h hplain
  · rw [h.2] at hsep
    revert hsep
    decide

theorem urlDecode_urlEncode (s : Bytes) (f : Bool) : urlDecode (urlEncode s f) f = s := by
  have h := plainDecode_plainEncode f s []
  rw [urlDecode_eq, urlEncode_eq]
  rwa [List.append_nil, plainDecode, List.append_nil] at h

theorem not_mem_urlEncode (s : Bytes) (f : Bool) {sep : UInt8} (hsep : sep ∈ [(38 : UInt8), 59]) :
    sep ∉ urlEncode s f := by
  rw [urlEncode_eq]
  exact not_mem_plainEncode f s hsep

/-- **What is encoded is read back.** The code of any string decodes to it, and is made of unreserved bytes, `%`, hex
digits and, for blanks, `+`. The loops with their late copy are the plain byte-by-byte coding on every input; a `%`
that is not followed by two hex digits stays. -/
theorem url_roundtrip (s : Bytes) (f : Bool) :
    urlDecode (urlEncode s f) f = s ∧
      (∀ c ∈ urlEncode s f, charIsUnreserved c = true ∨ c = 37 ∨ isxdigit c = true ∨ f = true ∧ c = 43) ∧
      38 ∉ urlEncode s f ∧ 59 ∉ urlEncode s f ∧
      urlEncode s f = plainEncode f s ∧ urlDecode s f = plainDecode f s ∧
      ((¬∃ h l t, s = h :: l :: t ∧ isxdigit h = true ∧ isxdigit l = true) →
        urlDecode (37 :: s) f = 37 :: urlDecode s f) := by
  refine ⟨urlDecode_urlEncode s f, fun c hc => ?_, not_mem_urlEncode s f (by decide), not_mem_urlEncode s f (by decide),
    urlEncode_eq s f, urlDecode_eq s f, fun hs => ?_⟩
  · rw [urlEncode_eq] at hc
    exact mem_plainEncode hc
  · have hno : ¬isEscape 37 s = true := fun hesc => hs (digits_of_isEscape hesc)
    rw [urlDecode_eq, urlDecode_eq, plainDecode_cons, if_neg hno]
    rfl

end Sylar.Util
