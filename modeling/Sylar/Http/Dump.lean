/-
`HttpResponse::dump` and `recvResponse`: what is printed, and what is read back.

A text is `WellPrinted` if it is a status line, the lines of the response in some order, an empty line and the body.
With a body, the last line is `content-length; n`: it has no colon, so no list of lines makes up the text
(`not_wellPrinted`). Without a body the text is a head as in `HeadText`, which the reader takes to its end.
-/
import Mathlib.Tactic
import Sylar.Core.Scan
import Sylar.Http.Message
import Sylar.Http.Stream
import Sylar.Http.ResponseMachine
import Sylar.Http.ResponseParser
import Sylar.Http.Connection
import Sylar.Http.ResponseCut
import Sylar.Http.HeadWalk

namespace Sylar.Http

open Sylar.Core Sylar.Core.Scan Sylar.Http.ResponseMachine

/-- a response whose texts stay in their lines -/
structure Plain (r : HttpResponse) : Prop where
  websocket : r.websocket = false
  version : r.version = 0x10 ∨ r.version = 0x11
  status : r.status ∈ httpStatusMap.map (·.1)
  reason : Clean r.reason
  headers : ∀ h ∈ r.headers, Ordinary h.1 ∧ Clean h.2

def IsStatusLine (line : Bytes) : Prop :=
  ∃ v code reason, v ∈ versions ∧ IsDigits code ∧ code.length = 3 ∧ Clean reason ∧
    line = v ++ [32] ++ code ++ [32] ++ reason

/-- the headers, the cookies and the connection, with the blank behind the colon -/
def HttpResponse.lines (r : HttpResponse) : List (Bytes × Bytes) :=
  (r.headers.map fun h => (h.1, 32 :: h.2)) ++ r.cookies.map (fun ck => (ascii "Set-Cookie", 32 :: ck)) ++
    [(ascii "connection", connectionValue r.close)]

/-- the line a body needs -/
def HttpResponse.lengthLines (r : HttpResponse) : List (Bytes × Bytes) :=
  if r.body ≠ [] then [(ascii "content-length", 32 :: decimal r.body.length)] else []

/-- the text is a status line, lines `token: value` that are those of the response, an empty line, and the body -/
def WellPrinted (r : HttpResponse) : Prop :=
  ∃ (line : Bytes) (ls : List (Bytes × Bytes)), IsStatusLine line ∧ (∀ l ∈ ls, IsToken l.1 ∧ Clean l.2) ∧ ls.Perm (r.lines ++ r.lengthLines) ∧
    r.dump = line ++ crlf ++ (ls.map fieldLine).flatten ++ crlf ++ r.body

/-- the reader finds the body, if the head comes in one read and fits the buffer; the body may come in any reads -/
def Recovers (r : HttpResponse) : Prop :=
  ∀ (data first : Bytes) (rest : List Bytes), first ++ rest.flatten = r.dump → (∀ s ∈ rest, s ≠ []) →
    r.dump.length ≤ first.length + r.body.length → first.length ≤ buffSize data → buffSize data ≤ maxRead →
      ∃ r', (recvResponse data ⟨(first :: rest).map .data, true⟩).result = .ok r' ∧ r'.body = r.body

/-! ## The text -/

def HttpResponse.versionText (r : HttpResponse) : Bytes :=
  ascii "HTTP/" ++ decimal (r.version / 16) ++ ascii "." ++ decimal (r.version % 16)

def HttpResponse.codeText (r : HttpResponse) : Bytes := decimal (r.status % 4294967296).toNat

def HttpResponse.reasonText (r : HttpResponse) : Bytes :=
  if r.reason = [] then httpStatusToString r.status else r.reason

def HttpResponse.statusLine (r : HttpResponse) : Bytes :=
  r.versionText ++ [32] ++ r.codeText ++ [32] ++ r.reasonText

/-- behind the lines of the response -/
def HttpResponse.tailText (r : HttpResponse) : Bytes :=
  if r.body ≠ [] then ascii "content-length; " ++ decimal r.body.length ++ crlf ++ crlf ++ r.body else crlf

theorem versionText_mem {r : HttpResponse} (h : Plain r) : r.versionText ∈ versions := by
  rcases h.version with hv | hv <;> rw [HttpResponse.versionText, hv] <;> decide

theorem codeText_digits {r : HttpResponse} (h : Plain r) : IsDigits r.codeText ∧ r.codeText.length = 3 := by
  have htable : ∀ s ∈ httpStatusMap.map (·.1), IsDigits (decimal (s % 4294967296).toNat) ∧
      (decimal (s % 4294967296).toNat).length = 3 := by decide +kernel
  exact htable r.status h.status

theorem reasonText_clean {r : HttpResponse} (h : Plain r) : r.reasonText ≠ [] ∧ Clean r.reasonText := by
  have htable : ∀ s ∈ httpStatusMap.map (·.1), httpStatusToString s ≠ [] ∧ Clean (httpStatusToString s) := by
    decide +kernel
  rw [HttpResponse.reasonText]
  split_ifs with hr
  · exact htable r.status h.status
  · exact ⟨hr, h.reason⟩

theorem dump_eq {r : HttpResponse} (h : Plain r) :
    r.dump = r.statusLine ++ crlf ++ (r.lines.map fieldLine).flatten ++ r.tailText := by
  have hfilter : (r.headers.filter fun i => !(!r.websocket && strcasecmpEq i.1 (ascii "connection"))) = r.headers := by
    rw [List.filter_eq_self]
    intro e he
    have := (h.headers e he).1.unknown (ascii "connection") (by decide)
    simp [this]
  have hclose : fieldLine (ascii "connection", connectionValue r.close) =
      ascii "connection: " ++ ascii (if r.close then "close" else "keep-alive") ++ crlf := by
    cases r.close <;> decide
  have hheaders : (r.headers.map fun h => (h.1, (32 : UInt8) :: h.2)).map fieldLine =
      r.headers.map fun i => i.1 ++ ascii ": " ++ i.2 ++ crlf := by
    rw [List.map_map]
    refine List.map_congr_left fun e _ => ?_
    simp [fieldLine, ascii]
  have hcookies : (r.cookies.map fun ck => (ascii "Set-Cookie", (32 : UInt8) :: ck)).map fieldLine =
      r.cookies.map fun i => ascii "Set-Cookie: " ++ i ++ crlf := by
    rw [List.map_map]
    refine List.map_congr_left fun ck _ => ?_
    simp [fieldLine, ascii]
  rw [HttpResponse.dump, hfilter, h.websocket, HttpResponse.lines, List.map_append, List.map_append,
    List.flatten_append, List.flatten_append, List.map_singleton, List.flatten_singleton, hclose, hheaders, hcookies]
  simp [HttpResponse.statusLine, HttpResponse.versionText, HttpResponse.codeText, HttpResponse.reasonText,
    HttpResponse.tailText, ascii]

/-! ## With a body -/

/-- a last line without a colon is no line `name: value` -/
theorem last_line_colon {x y t v : Bytes} (ht : 58 ∉ t) (hv : 10 ∉ v) : x ++ crlf ++ t ≠ y ++ 58 :: v := by
  intro h
  replace h : (x ++ [13]) ++ 10 :: t = y ++ 58 :: v := by simpa [crlf] using h
  rcases List.append_eq_append_iff.mp h with ⟨a, -, ha⟩ | ⟨a, -, ha⟩
  · rcases a with - | ⟨b, a⟩
    · exact absurd (List.cons.inj ha).1 (by decide)
    · exact ht (by rw [(List.cons.inj ha).2]; simp)
  · rcases a with - | ⟨b, a⟩
    · exact absurd (List.cons.inj ha).1 (by decide)
    · exact hv (by rw [(List.cons.inj ha).2]; simp)

theorem flatten_last (front : List (Bytes × Bytes)) (l : Bytes × Bytes) :
    ((front ++ [l]).map fieldLine).flatten = (front.map fieldLine).flatten ++ l.1 ++ 58 :: l.2 ++ crlf := by
  simp [fieldLine]

theorem not_wellPrinted {r : HttpResponse} (h : Plain r) (hbody : r.body ≠ []) : ¬WellPrinted r := by
  intro hprinted
  obtain ⟨line, ls, -, hls, hperm, htext⟩ := hprinted
  have hne : ls ≠ [] := by
    rintro rfl
    have := hperm.length_eq
    simp [HttpResponse.lines] at this
  obtain ⟨front, l, rfl⟩ : ∃ front l, ls = front ++ [l] :=
    ⟨ls.dropLast, ls.getLast hne, (List.dropLast_append_getLast hne).symm⟩
  rw [dump_eq h, HttpResponse.tailText, if_pos hbody, HttpResponse.lines, flatten_last, flatten_last] at htext
  simp only [← List.append_assoc] at htext
  have hlast := List.append_cancel_right (List.append_cancel_right (List.append_cancel_right htext))
  -- the line of the length stands behind a line end, the value behind a colon
  rw [List.append_assoc (_ ++ crlf)] at hlast
  refine last_line_colon ?_ ?_ hlast
  · intro hmem
    rcases List.mem_append.mp hmem with hmem | hmem
    · exact absurd hmem (by decide)
    · exact absurd (decimal_digits hmem) (by decide)
  · exact fun hmem => ((hls l (by simp)).2 10 hmem).2 rfl

/-! ## Without a body -/

/-- a response without a body whose cookies stay in their lines is a head -/
def headText (r : HttpResponse) (h : Plain r) (hck : ∀ ck ∈ r.cookies, Clean ck) : HeadText where
  version := r.versionText
  code := r.codeText
  reason := r.reasonText
  lines := (r.headers.map fun h => (h.1, 32 :: h.2)) ++ r.cookies.map fun ck => (ascii "Set-Cookie", 32 :: ck)
  close := r.close
  known := versionText_mem h
  digits := (codeText_digits h).1
  reason_ne := (reasonText_clean h).1
  reason_clean := (reasonText_clean h).2
  ordinary := by
    have hblank : ∀ {v : Bytes}, Clean v → Clean (32 :: v) := by
      intro v hv c hc
      rcases List.mem_cons.mp hc with rfl | hc
      · decide
      · exact hv c hc
    have hset : Ordinary (ascii "Set-Cookie") := ⟨by decide, by decide⟩
    intro l hl
    rcases List.mem_append.mp hl with hl | hl
    · obtain ⟨e, he, rfl⟩ := List.mem_map.mp hl
      exact ⟨(h.headers e he).1, hblank (h.headers e he).2⟩
    · obtain ⟨ck, hmem, rfl⟩ := List.mem_map.mp hl
      exact ⟨hset, hblank (hck ck hmem)⟩

theorem headText_bytes {r : HttpResponse} (h : Plain r) (hck : ∀ ck ∈ r.cookies, Clean ck) (hbody : r.body = []) :
    (headText r h hck).bytes = r.dump := by
  rw [dump_eq h, HttpResponse.tailText, if_neg (by simp [hbody])]
  simp [HeadText.bytes, headText, HttpResponse.statusLine, HttpResponse.lines, crlf]

theorem wellPrinted_of_clean {r : HttpResponse} (h : Plain r) (hck : ∀ ck ∈ r.cookies, Clean ck) (hbody : r.body = []) :
    WellPrinted r := by
  have hlines := (headText r h hck).ordinary
  refine ⟨r.statusLine, r.lines, ⟨_, _, _, versionText_mem h, (codeText_digits h).1, (codeText_digits h).2,
    (reasonText_clean h).2, rfl⟩, ?_, ?_, ?_⟩
  · intro l hl
    rcases List.mem_append.mp hl with hl | hl
    · exact ⟨(hlines l hl).1.token, (hlines l hl).2⟩
    · rw [List.mem_singleton.mp hl]
      have htable : ∀ b, IsToken (ascii "connection") ∧ Clean (connectionValue b) := by decide
      exact htable r.close
  · rw [HttpResponse.lengthLines, if_neg (by simp [hbody]), List.append_nil]
  · rw [dump_eq h, HttpResponse.tailText, if_neg (by simp [hbody]), hbody, List.append_nil]

/-- **The reader on a head.** A head in one read that fits the buffer gives a response with an empty body. -/
theorem HeadText.recvResponse (h : HeadText) {data : Bytes} (hfit : h.bytes.length ≤ buffSize data)
    (hsize : buffSize data ≤ maxRead) (rs : List Recv) :
    ∃ r', (Http.recvResponse data ⟨.data h.bytes :: rs, true⟩).result = .ok r' ∧ r'.body = [] := by
  have hpos := h.bytes_pos
  have hlt : h.bytes.length < data.length := by
    rw [buffSize] at hfit
    omega
  have hread : h.bytes.length ≤ maxRead := hfit.trans hsize
  have hbuffer : loaded data h.bytes = h.bytes ++ (loaded data h.bytes).drop h.bytes.length := by
    conv_lhs => rw [← List.take_append_drop h.bytes.length (loaded data h.bytes), loaded_take]
  obtain ⟨e, hx, hgood⟩ := h.exec_bytes (hread.trans (by decide)) ((loaded data h.bytes).drop h.bytes.length)
  rw [← hbuffer] at hx
  have hexec := execute_of_exec (d := .new) hlt hread hx hgood.toInside
  have hmax : maxRead = 2147483647 := rfl
  have hint : toInt32 (buffSize data) ≠ 0 := by
    rw [toInt32_of_lt (by omega) (by omega)]
    omega
  have hparse : (readParse false .new data 0 ⟨.data h.bytes :: rs, true⟩).1 = _ :=
    readParse_whole (le_min hfit hread) hpos hexec
  have hgo : ¬(e.error ≠ 0 ∨ firstFinal = error ∨ toInt32 (buffSize data) = 0) := by
    rw [not_or, not_or]
    exact ⟨not_not.mpr hgood.error, by decide, hint⟩
  rw [if_neg hgo, if_pos rfl] at hparse
  rcases hp : readParse false .new data 0 ⟨.data h.bytes :: rs, true⟩ with ⟨x, c⟩
  rw [hp] at hparse
  obtain rfl : x = _ := hparse
  have hlength : e.data.getContentLength = 0 := hgood.headers.getU64
  refine ⟨e.data, ?_, hgood.body⟩
  have hchunked : (e.stopped firstFinal h.bytes.length).parser.chunked = false := hgood.chunked
  have hdata : (e.stopped firstFinal h.bytes.length).data = e.data := rfl
  rw [Http.recvResponse, hp]
  simp only [hchunked, hdata, Bool.false_eq_true, if_false, recvFixed, hlength]
  rfl

theorem recovers_of_clean {r : HttpResponse} (h : Plain r) (hck : ∀ ck ∈ r.cookies, Clean ck) (hbody : r.body = []) :
    Recovers r := by
  intro data first rest htext _ hlong hfit hsize
  have hfirst : first = r.dump := by
    have hlen := congrArg List.length htext
    rw [List.length_append] at hlen
    rw [hbody, List.length_nil, Nat.add_zero] at hlong
    have hrest : rest.flatten = [] := List.length_eq_zero_iff.mp (by omega)
    rw [← htext, hrest, List.append_nil]
  rw [← headText_bytes h hck hbody] at hfirst
  subst hfirst
  rw [hbody]
  exact (headText r h hck).recvResponse hfit hsize _

/-- **Printed and read back.** The text of a response has the form of a response, and the reader finds its body there,
if and only if the body is empty and the cookies stay in their lines. -/
theorem response_dump_iff (r : HttpResponse) (h : Plain r) :
    WellPrinted r ∧ Recovers r ↔ r.body = [] ∧ ∀ ck ∈ r.cookies, Clean ck := by
  constructor
  · intro hok
    refine ⟨?_, ?_⟩
    · by_contra hbody
      exact not_wellPrinted h hbody hok.1
    · intro ck hck c hc
      obtain ⟨line, ls, -, hls, hperm, -⟩ := hok.1
      have hmem : (ascii "Set-Cookie", 32 :: ck) ∈ ls := by
        rw [hperm.mem_iff]
        simp [HttpResponse.lines, hck]
      exact (hls _ hmem).2 c (List.mem_cons_of_mem 32 hc)
  · intro hok
    exact ⟨wellPrinted_of_clean h hok.2 hok.1, recovers_of_clean h hok.2 hok.1⟩

/-- the response of `test_response`, and what is left of it without its body -/
def testResponse : HttpResponse where
  headers := [(ascii "X-X", ascii "sylar")]
  body := ascii "hello sylar"

def emptyResponse : HttpResponse := { testResponse with body := [], cookies := [ascii "a=b"] }

theorem plain_of_headers {r : HttpResponse} (hw : r.websocket = false) (hv : r.version = 0x11) (hs : r.status = 200)
    (hr : r.reason = []) (hh : r.headers = [(ascii "X-X", ascii "sylar")]) : Plain r where
  websocket := hw
  version := .inr hv
  status := by rw [hs]; decide
  reason := by rw [hr]; decide
  headers := by
    intro e he
    rw [hh, List.mem_singleton] at he
    rw [he]
    exact ⟨⟨by decide, by decide⟩, by decide⟩

theorem response_dump_iff_empty : WellPrinted emptyResponse ∧ Recovers emptyResponse :=
  (response_dump_iff emptyResponse (plain_of_headers rfl rfl rfl rfl rfl)).mpr ⟨rfl, by decide⟩

/-- the text of `test_response` is not of the form of a response -/
theorem test_response_semicolon : Plain testResponse ∧ ¬WellPrinted testResponse :=
  ⟨plain_of_headers rfl rfl rfl rfl rfl, not_wellPrinted (plain_of_headers rfl rfl rfl rfl rfl) (by decide)⟩

end Sylar.Http
