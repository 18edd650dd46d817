/-
HTTP messages: the request and response objects the parsers fill in (`http.h`, `http.cpp`).

A `std::string` is its list of bytes. Functions that take a `const char*` see it up to the first NUL (`cstr`). The
header map orders its keys by `strcasecmp`, so keys that differ in case only are one key, which keeps its first
spelling.

The fields of requests that neither the parser, nor the receiving side, nor the printer touches, cookies and
parameters, are those of `Sylar.Http.Params`.

`HttpRequest.dump` and `HttpResponse.dump` are the texts of a request and of a response, as `operator<<` writes them.
-/
import Mathlib.Data.FinEnum
import Mathlib.Tactic
import Sylar.Core.OrdSet
import Sylar.Core.Numerals

namespace Sylar.Http

open Sylar.Core

abbrev Bytes := List UInt8

/-- a property of the bytes of a string is tested on its bytes, not on all values of a byte -/
instance (priority := high) decidableForallByte (p : UInt8 → Prop) [DecidablePred p] (s : Bytes) :
    Decidable (∀ c ∈ s, p c) := List.decidableBAll p s

/-- the bytes of a literal -/
def ascii (s : String) : Bytes := s.toList.map fun c => c.toNat.toUInt8

/-! ## C strings -/

/-- the bytes up to the first NUL, and the NUL -/
def cstr (s : Bytes) : Bytes := s.takeWhile (· ≠ 0) ++ [0]

def tolower (c : UInt8) : UInt8 := if 65 ≤ c.toNat ∧ c.toNat ≤ 90 then c + 32 else c

/-- `strncmp(a, b, n) == 0` -/
def strncmpEq (a b : Bytes) (n : ℕ) : Bool := decide ((cstr a).take n = (cstr b).take n)

/-- `strcasecmp(a, b) < 0` -/
def caseInsensitiveLess (a b : Bytes) : Bool := decide ((cstr a).map tolower < (cstr b).map tolower)

/-- `strcasecmp(a, b) == 0` -/
def strcasecmpEq (a b : Bytes) : Bool := decide ((cstr a).map tolower = (cstr b).map tolower)

theorem cstr_take (a : Bytes) (n : ℕ) : (cstr a).take n = (cstr (a.take n)).take n := by
  induction a generalizing n with
  | nil => simp
  | cons x a ih =>
    cases n with
    | zero => simp
    | succ n =>
      by_cases hx : x = 0
      · simp [cstr, hx]
      · have := ih n
        simpa [cstr, hx] using this

/-- a string without a NUL is seen as a whole -/
theorem cstr_of_noNul {s : Bytes} (h : 0 ∉ s) : cstr s = s ++ [0] := by
  have hwhole : s.takeWhile (· ≠ 0) = s := by
    rw [List.takeWhile_eq_self_iff]
    intro x hx
    exact decide_eq_true (ne_of_mem_of_not_mem hx h)
  rw [cstr, hwhole]

/-! ## Methods -/

inductive HttpMethod where
  | DELETE | GET | HEAD | POST | PUT | CONNECT | OPTIONS | TRACE | COPY | LOCK | MKCOL | MOVE | PROPFIND | PROPPATCH
  | SEARCH | UNLOCK | BIND | REBIND | UNBIND | ACL | REPORT | MKACTIVITY | CHECKOUT | MERGE | MSEARCH | NOTIFY
  | SUBSCRIBE | UNSUBSCRIBE | PATCH | PURGE | MKCALENDAR | LINK | UNLINK | SOURCE
  | INVALID_METHOD
deriving DecidableEq, Repr

/-- `HTTP_METHOD_MAP` -/
def httpMethodMap : List (HttpMethod × Bytes) :=
  [(.DELETE, ascii "DELETE"), (.GET, ascii "GET"), (.HEAD, ascii "HEAD"), (.POST, ascii "POST"), (.PUT, ascii "PUT"),
    (.CONNECT, ascii "CONNECT"), (.OPTIONS, ascii "OPTIONS"), (.TRACE, ascii "TRACE"), (.COPY, ascii "COPY"),
    (.LOCK, ascii "LOCK"), (.MKCOL, ascii "MKCOL"), (.MOVE, ascii "MOVE"), (.PROPFIND, ascii "PROPFIND"),
    (.PROPPATCH, ascii "PROPPATCH"), (.SEARCH, ascii "SEARCH"), (.UNLOCK, ascii "UNLOCK"), (.BIND, ascii "BIND"),
    (.REBIND, ascii "REBIND"), (.UNBIND, ascii "UNBIND"), (.ACL, ascii "ACL"), (.REPORT, ascii "REPORT"),
    (.MKACTIVITY, ascii "MKACTIVITY"), (.CHECKOUT, ascii "CHECKOUT"), (.MERGE, ascii "MERGE"),
    (.MSEARCH, ascii "M-SEARCH"), (.NOTIFY, ascii "NOTIFY"), (.SUBSCRIBE, ascii "SUBSCRIBE"),
    (.UNSUBSCRIBE, ascii "UNSUBSCRIBE"), (.PATCH, ascii "PATCH"), (.PURGE, ascii "PURGE"),
    (.MKCALENDAR, ascii "MKCALENDAR"), (.LINK, ascii "LINK"), (.UNLINK, ascii "UNLINK"), (.SOURCE, ascii "SOURCE")]

/-- the first method whose name the memory at `m` starts with -/
def charsToHttpMethod (m : Bytes) : HttpMethod :=
  (httpMethodMap.find? fun e => e.2.isPrefixOf m).elim .INVALID_METHOD (·.1)

theorem charsToHttpMethod_ne_invalid (m : Bytes) :
    charsToHttpMethod m ≠ .INVALID_METHOD ↔ ∃ e ∈ httpMethodMap, e.2 <+: m := by
  have htable : ∀ e ∈ httpMethodMap, e.1 ≠ .INVALID_METHOD := by decide
  unfold charsToHttpMethod
  cases hfind : httpMethodMap.find? fun e => e.2.isPrefixOf m with
  | none =>
    simp only [Option.elim_none, ne_eq, not_true_eq_false, false_iff, not_exists, not_and]
    intro e he hpre
    exact List.find?_eq_none.mp hfind e he (List.isPrefixOf_iff_prefix.mpr hpre)
  | some e =>
    have hmem := List.mem_of_find?_eq_some hfind
    have hpre : e.2.isPrefixOf m = true := by simpa using List.find?_some hfind
    exact iff_of_true (htable e hmem) ⟨e, hmem, List.isPrefixOf_iff_prefix.mp hpre⟩

/-- no name of a method starts with another one -/
theorem httpMethodMap_apart : ∀ e ∈ httpMethodMap, ∀ e' ∈ httpMethodMap, e.2 <+: e'.2 → e = e' := by decide

theorem charsToHttpMethod_eq {e : HttpMethod × Bytes} (he : e ∈ httpMethodMap) {m : Bytes} (hpre : e.2 <+: m) :
    charsToHttpMethod m = e.1 := by
  unfold charsToHttpMethod
  cases hfind : httpMethodMap.find? fun e => e.2.isPrefixOf m with
  | none => exact absurd (List.isPrefixOf_iff_prefix.mpr hpre) (List.find?_eq_none.mp hfind e he)
  | some e' =>
    have hmem := List.mem_of_find?_eq_some hfind
    have hpre' : e'.2.isPrefixOf m = true := by simpa using List.find?_some hfind
    have hsame : e' = e := by
      rcases List.prefix_or_prefix_of_prefix (List.isPrefixOf_iff_prefix.mp hpre') hpre with h1 | h1
      · exact httpMethodMap_apart e' hmem e he h1
      · exact (httpMethodMap_apart e he e' hmem h1).symm
    rw [hsame]
    rfl

/-- more bytes behind a known method do not change it -/
theorem charsToHttpMethod_append {m : Bytes} (h : charsToHttpMethod m ≠ .INVALID_METHOD) (x : Bytes) :
    charsToHttpMethod (m ++ x) = charsToHttpMethod m := by
  rw [charsToHttpMethod_ne_invalid] at h
  obtain ⟨e₀, he₀, hpre₀⟩ := h
  have hsame : ∀ e ∈ httpMethodMap, e.2.isPrefixOf (m ++ x) = e.2.isPrefixOf m := by
    intro e he
    rw [Bool.eq_iff_iff, List.isPrefixOf_iff_prefix, List.isPrefixOf_iff_prefix]
    refine ⟨fun hpre => ?_, fun hpre => hpre.trans (List.prefix_append m x)⟩
    -- both names start the same bytes, so one starts the other
    rcases List.prefix_or_prefix_of_prefix hpre (hpre₀.trans (List.prefix_append m x)) with h1 | h1
    · rw [httpMethodMap_apart e he e₀ he₀ h1]
      exact hpre₀
    · rw [← httpMethodMap_apart e₀ he₀ e he h1]
      exact hpre₀
  rw [charsToHttpMethod, charsToHttpMethod, List.find?_congr hsame]

/-! ## Headers -/

/-- `MapType`: entries in the order of their keys -/
abbrev MapType := List (Bytes × Bytes)

/-- the order of the entries -/
def entryLess (a b : Bytes × Bytes) : Bool := caseInsensitiveLess a.1 b.1

/-- `m.find(key)` -/
def MapType.find (m : MapType) (key : Bytes) : Option Bytes := (OrdSet.find entryLess (key, []) m).map (·.2)

/-- `m[key] = val` -/
def MapType.assign (m : MapType) (key val : Bytes) : MapType :=
  match OrdSet.lowerBound (entryLess · (key, [])) m with
  | (a, []) => a ++ [(key, val)]
  | (a, (k, v) :: b) => if caseInsensitiveLess key k then a ++ (key, val) :: (k, v) :: b else a ++ (k, val) :: b

theorem entryLess_order : OrdSet.StrictOrder entryLess where
  irrefl := by
    intro a
    rw [entryLess, caseInsensitiveLess, decide_eq_false_iff_not]
    exact List.lt_irrefl _
  trans := by
    intro a b c hab hbc
    rw [entryLess, caseInsensitiveLess, decide_eq_true_eq] at hab hbc ⊢
    exact List.lt_trans hab hbc

/-- keys that are not equal ignoring case are ordered -/
theorem less_or_less {a b : Bytes} (h : strcasecmpEq a b = false) :
    caseInsensitiveLess a b = true ∨ caseInsensitiveLess b a = true := by
  rw [strcasecmpEq, decide_eq_false_iff_not] at h
  rw [caseInsensitiveLess, caseInsensitiveLess, decide_eq_true_eq, decide_eq_true_eq]
  by_contra hnot
  rw [not_or, List.not_lt, List.not_lt] at hnot
  exact h (List.le_antisymm hnot.2 hnot.1)

theorem caseInsensitiveLess_ne {a b : Bytes} (h : caseInsensitiveLess a b = true) : strcasecmpEq a b = false := by
  rw [caseInsensitiveLess, decide_eq_true_eq] at h
  rw [strcasecmpEq, decide_eq_false_iff_not]
  intro he
  rw [he] at h
  exact List.lt_irrefl _ h

/-- a header with a new key goes in at its place -/
theorem MapType.assign_new {m : MapType} (hm : OrdSet.Sorted entryLess m) {key : Bytes}
    (hkey : ∀ e ∈ m, strcasecmpEq e.1 key = false) (val : Bytes) :
    OrdSet.Sorted entryLess (m.assign key val) ∧ ∀ e, e ∈ m.assign key val ↔ e = (key, val) ∨ e ∈ m := by
  have hinsert : m.assign key val = OrdSet.insert entryLess (key, val) m := by
    have hmem : ∀ e ∈ (OrdSet.lowerBound (entryLess · (key, [])) m).2, entryLess (key, []) e = true := by
      intro e he
      have hlow := (OrdSet.lowerBound_spec entryLess_order hm (key, [])).2 e he
      have he : e ∈ m := (List.dropWhile_sublist _).subset he
      exact (less_or_less (hkey e he)).resolve_left (ne_true_of_eq_false hlow)
    unfold MapType.assign OrdSet.insert
    have hcut : OrdSet.lowerBound (entryLess · (key, val)) m = OrdSet.lowerBound (entryLess · (key, [])) m := rfl
    rw [hcut]
    rcases hlb : OrdSet.lowerBound (entryLess · (key, [])) m with ⟨a, b⟩
    rw [hlb] at hmem
    match b with
    | [] => rfl
    | (k, v) :: b =>
      have hless : caseInsensitiveLess key k = true := hmem (k, v) List.mem_cons_self
      have hless' : entryLess (key, val) (k, v) = true := hless
      simp only [hless, hless', if_true]
  have hcomp : OrdSet.Comparable entryLess (key, val) m := fun e he _ => less_or_less (hkey e he)
  obtain ⟨hmem, hsorted⟩ := OrdSet.insert_spec entryLess_order hm hcomp
  rw [hinsert]
  exact ⟨hsorted, hmem⟩

/-- a header is found under any spelling of its key -/
theorem MapType.find_of_mem {m : MapType} (hm : OrdSet.Sorted entryLess m) {k v key : Bytes} (he : (k, v) ∈ m)
    (hkey : strcasecmpEq k key = true) : m.find key = some v := by
  rw [strcasecmpEq, decide_eq_true_eq] at hkey
  have hsame : ∀ z, entryLess z (k, v) = entryLess z (key, []) := by
    intro z
    rw [entryLess, entryLess, caseInsensitiveLess, caseInsensitiveLess, hkey]
  rw [MapType.find, OrdSet.find_equiv entryLess_order hm he hsame]
  rfl

/-- `boost::lexical_cast<uint64_t>`: an optional sign and digits, the value below 2^64; a minus negates modulo 2^64 -/
def lexicalCastU64 (s : Bytes) : Option ℕ :=
  let minus := s.head? = some 45
  let digits := if s.head? = some 43 ∨ minus then s.tail else s
  if digits = [] ∨ ¬digits.all (fun c => 48 ≤ c.toNat ∧ c.toNat ≤ 57) then none
  else
    let v := digits.foldl (fun v c => v * 10 + (c.toNat - 48)) 0
    if 2 ^ 64 ≤ v then none else some (if minus then (2 ^ 64 - v) % 2 ^ 64 else v)

/-- `getAs<uint64_t>(m, key, 0)` -/
def MapType.getU64 (m : MapType) (key : Bytes) : ℕ := ((m.find key).bind lexicalCastU64).getD 0

/-! ## Requests and responses -/

structure HttpRequest where
  method : HttpMethod := .GET
  version : ℕ := 0x11
  close : Bool := true
  websocket : Bool := false
  path : Bytes := ascii "/"
  query : Bytes := []
  fragment : Bytes := []
  body : Bytes := []
  headers : MapType := []
deriving DecidableEq, Repr

/-- what `init()` makes of the header `connection` -/
def HttpRequest.init (r : HttpRequest) : HttpRequest :=
  let conn := (r.headers.find (ascii "connection")).getD []
  if conn ≠ [] then { r with close := !strcasecmpEq conn (ascii "keep-alive") } else r

def HttpRequest.getContentLength (r : HttpRequest) : ℕ := r.headers.getU64 (ascii "content-length")

/-- `m_status` is any `int` -/
structure HttpResponse where
  status : ℤ := 200
  version : ℕ := 0x11
  close : Bool := true
  websocket : Bool := false
  body : Bytes := []
  reason : Bytes := []
  headers : MapType := []
  cookies : List Bytes := []
deriving DecidableEq, Repr

def HttpResponse.getContentLength (r : HttpResponse) : ℕ := r.headers.getU64 (ascii "content-length")

/-! ## The texts -/

/-- `HTTP_STATUS_MAP` -/
def httpStatusMap : List (ℤ × Bytes) :=
  [(100, ascii "Continue"), (101, ascii "Switching Protocols"), (102, ascii "Processing"), (200, ascii "OK"),
    (201, ascii "Created"), (202, ascii "Accepted"), (203, ascii "Non-Authoritative Information"),
    (204, ascii "No Content"), (205, ascii "Reset Content"), (206, ascii "Partial Content"),
    (207, ascii "Multi-Status"), (208, ascii "Already Reported"), (226, ascii "IM Used"),
    (300, ascii "Multiple Choices"), (301, ascii "Moved Permanently"), (302, ascii "Found"), (303, ascii "See Other"),
    (304, ascii "Not Modified"), (305, ascii "Use Proxy"), (307, ascii "Temporary Redirect"),
    (308, ascii "Permanent Redirect"), (400, ascii "Bad Request"), (401, ascii "Unauthorized"),
    (402, ascii "Payment Required"), (403, ascii "Forbidden"), (404, ascii "Not Found"),
    (405, ascii "Method Not Allowed"), (406, ascii "Not Acceptable"), (407, ascii "Proxy Authentication Required"),
    (408, ascii "Request Timeout"), (409, ascii "Conflict"), (410, ascii "Gone"), (411, ascii "Length Required"),
    (412, ascii "Precondition Failed"), (413, ascii "Payload Too Large"), (414, ascii "URI Too Long"),
    (415, ascii "Unsupported Media Type"), (416, ascii "Range Not Satisfiable"), (417, ascii "Expectation Failed"),
    (421, ascii "Misdirected Request"), (422, ascii "Unprocessable Entity"), (423, ascii "Locked"),
    (424, ascii "Failed Dependency"), (426, ascii "Upgrade Required"), (428, ascii "Precondition Required"),
    (429, ascii "Too Many Requests"), (431, ascii "Request Header Fields Too Large"),
    (451, ascii "Unavailable For Legal Reasons"), (500, ascii "Internal Server Error"),
    (501, ascii "Not Implemented"), (502, ascii "Bad Gateway"), (503, ascii "Service Unavailable"),
    (504, ascii "Gateway Timeout"), (505, ascii "HTTP Version Not Supported"), (506, ascii "Variant Also Negotiates"),
    (507, ascii "Insufficient Storage"), (508, ascii "Loop Detected"), (510, ascii "Not Extended"),
    (511, ascii "Network Authentication Required")]

def httpStatusToString (s : ℤ) : Bytes := (httpStatusMap.find? fun e => e.1 = s).elim (ascii "<unknown>") (·.2)

def crlf : Bytes := [13, 10]

/-- an unsigned number in a stream -/
def decimal (n : ℕ) : Bytes := (Nat.toDigits 10 n).map fun c => c.toNat.toUInt8

theorem decimal_eq (n : ℕ) : decimal n = numeral 10 n := rfl

theorem decimal_digits {n : ℕ} {c : UInt8} (hc : c ∈ decimal n) : 48 ≤ c.toNat ∧ c.toNat ≤ 57 := by
  have hdigit : ∀ d < 10, 48 ≤ d.digitChar.toNat.toUInt8.toNat ∧ d.digitChar.toNat.toUInt8.toNat ≤ 57 := by decide
  obtain ⟨d, hd, rfl⟩ := mem_numeral (b := 10) (by decide) hc
  exact hdigit d hd

/-- what is no digit is not in a number -/
theorem decimal_plain {sep : UInt8} (hsep : ¬(48 ≤ sep.toNat ∧ sep.toNat ≤ 57)) (n : ℕ) : sep ∉ decimal n :=
  fun h => hsep (decimal_digits h)

theorem decimal_ne_nil (n : ℕ) : decimal n ≠ [] := numeral_ne_nil 10 n

theorem decimal_inj {m n : ℕ} (h : decimal m = decimal n) : m = n := numeral_inj (b := 10) (by decide) (by decide) h

theorem decimal_length {n k : ℕ} (hk : 0 < k) (hn : n < 10 ^ k) : (decimal n).length ≤ k :=
  numeral_length (by decide) hk hn

/-- the value of the digits -/
theorem decimal_value (n : ℕ) : (decimal n).foldl (fun v c => v * 10 + (c.toNat - 48)) 0 = n := by
  have hdigit : ∀ d < 10, d.digitChar.toNat.toUInt8.toNat - 48 = d := by decide
  induction n using Nat.base_induction 10 (by decide) with
  | single d hd =>
    rw [decimal_eq, numeral_of_lt hd, List.foldl_cons, List.foldl_nil, hdigit d hd, Nat.zero_mul, Nat.zero_add]
  | digit m d hd hm ih =>
    have hsnoc : decimal (10 * m + d) = decimal m ++ [d.digitChar.toNat.toUInt8] := numeral_digit (by decide) hm hd
    calc (decimal (10 * m + d)).foldl (fun v c => v * 10 + (c.toNat - 48)) 0
        = (decimal m).foldl (fun v c => v * 10 + (c.toNat - 48)) 0 * 10 + (d.digitChar.toNat.toUInt8.toNat - 48) := by
          rw [hsnoc, List.foldl_append, List.foldl_cons, List.foldl_nil]
      _ = m * 10 + d := by rw [ih, hdigit d hd]
      _ = 10 * m + d := by rw [Nat.mul_comm]

theorem lexicalCastU64_decimal {n : ℕ} (hn : n < 2 ^ 64) : lexicalCastU64 (decimal n) = some n := by
  have hsign : ∀ c, (decimal n).head? = some c → 48 ≤ c.toNat := fun c hc => (decimal_digits (List.mem_of_head? hc)).1
  have hplus : (decimal n).head? ≠ some 43 := fun hc => absurd (hsign 43 hc) (by decide)
  have hminus : (decimal n).head? ≠ some 45 := fun hc => absurd (hsign 45 hc) (by decide)
  have hall : (decimal n).all (fun c => 48 ≤ c.toNat ∧ c.toNat ≤ 57) = true := by
    rw [List.all_eq_true]
    intro c hc
    exact decide_eq_true (decimal_digits hc)
  simp only [lexicalCastU64, hplus, hminus, or_self, if_false, decimal_ne_nil, hall, not_true_eq_false, decimal_value,
    not_le.mpr hn]

/-- `HttpMethodToString`: `s_method_string[m]`, whose entries are those of the map -/
def httpMethodToString (m : HttpMethod) : Bytes := (httpMethodMap.find? fun e => e.1 = m).elim (ascii "<unknown>") (·.2)

/-- the value of `connection` has its blank in one case only -/
def HttpRequest.dump (r : HttpRequest) : Bytes :=
  httpMethodToString r.method ++ ascii " " ++ r.path ++ ascii (if r.query = [] then "" else "?") ++ r.query ++
    ascii (if r.fragment = [] then "" else "#") ++ r.fragment ++ ascii " HTTP/" ++ decimal (r.version / 16) ++ ascii "." ++
    decimal (r.version % 16) ++ crlf ++
    (if !r.websocket then ascii "connection:" ++ ascii (if r.close then " close" else "keep-alive") ++ crlf else []) ++
    ((r.headers.filter fun i => !(!r.websocket && strcasecmpEq i.1 (ascii "connection"))).map fun i =>
      i.1 ++ ascii ": " ++ i.2 ++ crlf).flatten ++
    if r.body ≠ [] then ascii "content-length: " ++ decimal r.body.length ++ crlf ++ crlf ++ r.body else crlf

def HttpResponse.dump (r : HttpResponse) : Bytes :=
  ascii "HTTP/" ++ decimal (r.version / 16) ++ ascii "." ++ decimal (r.version % 16) ++ ascii " " ++
    decimal (r.status % 4294967296).toNat ++ ascii " " ++
    (if r.reason = [] then httpStatusToString r.status else r.reason) ++ crlf ++
    ((r.headers.filter fun i => !(!r.websocket && strcasecmpEq i.1 (ascii "connection"))).map fun i =>
      i.1 ++ ascii ": " ++ i.2 ++ crlf).flatten ++
    (r.cookies.map fun i => ascii "Set-Cookie: " ++ i ++ crlf).flatten ++
    (if !r.websocket then ascii "connection: " ++ ascii (if r.close then "close" else "keep-alive") ++ crlf else []) ++
    if r.body ≠ [] then ascii "content-length; " ++ decimal r.body.length ++ crlf ++ crlf ++ r.body else crlf

end Sylar.Http
