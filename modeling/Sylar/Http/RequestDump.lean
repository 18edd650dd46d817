/-
`HttpRequest::dump` and the request parser: what is printed is read back.

The text of a printable request is a head and the body. The head is the one `RequestWalk` goes along, so the parser
stops behind it with the method, the target and the version of the request, and with the headers that the lines store
one after the other: `connection`, those of the request, and `content-length` if there is a body. None of the names is
stored twice, so the order of the lines does not show (`sentHeaders`). `init()` takes the close flag back from
`connection`.
-/
import Mathlib.Tactic
import Sylar.Core.Scan
import Sylar.Core.OrdSet
import Sylar.Http.Message
import Sylar.Http.Stream
import Sylar.Http.RequestMachine
import Sylar.Http.RequestParser
import Sylar.Http.HeadWalk
import Sylar.Http.RequestWalk

namespace Sylar.Http

open Sylar.Core Sylar.Core.Scan Sylar.Http.RequestMachine Sylar.Http.RequestWalk

/-- a request whose texts are those of the grammar -/
structure Printable (relaxed : Bool) (r : HttpRequest) : Prop where
  websocket : r.websocket = false
  version : r.version = 0x10 ∨ r.version = 0x11
  method : r.method ∈ httpMethodMap.map (·.1)
  letters : ∀ c ∈ httpMethodToString r.method, 65 ≤ c.toNat ∧ c.toNat ≤ 90
  path : PathAbsolute relaxed r.path
  query : UriText (queryChar relaxed) r.query
  fragment : UriText (queryChar relaxed) r.fragment
  /-- the order of the `std::map` -/
  sorted : OrdSet.Sorted entryLess r.headers
  headers : ∀ e ∈ r.headers, Readable e
  unnamed : ∀ e ∈ r.headers, ∀ x ∈ [ascii "connection", ascii "content-length"], strcasecmpEq e.1 x = false

def closeValue (close : Bool) : Bytes := ascii (if close then "close" else "keep-alive")

/-- the headers, and the two that the printer adds -/
def HttpRequest.sentHeaders (r : HttpRequest) : MapType :=
  let m := r.headers.assign (ascii "connection") (closeValue r.close)
  if r.body ≠ [] then m.assign (ascii "content-length") (decimal r.body.length) else m

/-! ## The headers -/

/-- headers with new names are all stored -/
theorem assignAll_new {m : MapType} {ls : List (Bytes × Bytes)} (hm : OrdSet.Sorted entryLess m)
    (hls : ls.Pairwise fun a b => strcasecmpEq a.1 b.1 = false) (hnew : ∀ l ∈ ls, ∀ e ∈ m, strcasecmpEq e.1 l.1 = false) :
    OrdSet.Sorted entryLess (assignAll m ls) ∧ ∀ e, e ∈ assignAll m ls ↔ e ∈ m ∨ e ∈ ls := by
  induction ls generalizing m with
  | nil => exact ⟨hm, fun e => by simp [assignAll]⟩
  | cons l ls ih =>
    obtain ⟨hfirst, hrest⟩ := List.pairwise_cons.mp hls
    obtain ⟨hsorted, hmem⟩ := MapType.assign_new hm (hnew l List.mem_cons_self) l.2
    have hnew' : ∀ l' ∈ ls, ∀ e ∈ m.assign l.1 l.2, strcasecmpEq e.1 l'.1 = false := by
      intro l' hl' e he
      rcases (hmem e).mp he with rfl | he
      · exact hfirst l' hl'
      · exact hnew l' (List.mem_cons_of_mem l hl') e he
    obtain ⟨hsorted', hmem'⟩ := ih hsorted hrest hnew'
    refine ⟨hsorted', ?_⟩
    intro e
    rw [assignAll, List.foldl_cons, ← assignAll, hmem', hmem, List.mem_cons]
    tauto

/-- the line a body needs -/
def HttpRequest.lengthLines (r : HttpRequest) : List (Bytes × Bytes) :=
  if r.body ≠ [] then [(ascii "content-length", decimal r.body.length)] else []

theorem mem_lengthLines {r : HttpRequest} {e : Bytes × Bytes} :
    e ∈ r.lengthLines ↔ r.body ≠ [] ∧ e = (ascii "content-length", decimal r.body.length) := by
  unfold HttpRequest.lengthLines
  split_ifs with hbody
  · simp [hbody]
  · simp [not_not.mp hbody]

section
variable {relaxed : Bool} {r : HttpRequest} (h : Printable relaxed r)
include h

theorem headers_new {key : Bytes} (hkey : key ∈ [ascii "connection", ascii "content-length"]) :
    ∀ e ∈ r.headers, strcasecmpEq e.1 key = false := fun e he => h.unnamed e he key hkey

/-- what is in the headers that are sent -/
theorem sentHeaders_spec : OrdSet.Sorted entryLess r.sentHeaders ∧ ∀ e, e ∈ r.sentHeaders ↔
    e = (ascii "connection", closeValue r.close) ∨ e ∈ r.headers ∨
      e ∈ r.lengthLines := by
  obtain ⟨hsorted, hmem⟩ := MapType.assign_new h.sorted (headers_new h List.mem_cons_self) (closeValue r.close)
  have hlength : ∀ e ∈ r.headers.assign (ascii "connection") (closeValue r.close),
      strcasecmpEq e.1 (ascii "content-length") = false := by
    intro e he
    rcases (hmem e).mp he with rfl | he
    · show strcasecmpEq (ascii "connection") (ascii "content-length") = false
      decide
    · exact headers_new h (by simp) e he
  obtain ⟨hsorted', hmem'⟩ := MapType.assign_new hsorted hlength (decimal r.body.length)
  unfold HttpRequest.sentHeaders HttpRequest.lengthLines
  by_cases hbody : r.body = []
  · simp only [hbody, ne_eq, not_true_eq_false, if_false]
    refine ⟨hsorted, ?_⟩
    intro e
    rw [hmem]
    simp
  · simp only [hbody, ne_eq, not_false_eq_true, if_true]
    refine ⟨hsorted', ?_⟩
    intro e
    rw [hmem', hmem, List.mem_singleton]
    tauto

/-- the lines store the headers that are sent -/
theorem assignAll_eq :
    assignAll [(ascii "connection", closeValue r.close)] (r.headers ++ r.lengthLines) = r.sentHeaders := by
  have hdistinct : (r.headers ++ r.lengthLines).Pairwise fun a b => strcasecmpEq a.1 b.1 = false := by
    refine List.pairwise_append.mpr ⟨h.sorted.imp caseInsensitiveLess_ne, ?_, ?_⟩
    · unfold HttpRequest.lengthLines
      split_ifs <;> simp
    · intro e he l hl
      rw [(mem_lengthLines.mp hl).2]
      exact headers_new h (by simp) e he
  have hnew : ∀ l ∈ r.headers ++ r.lengthLines, ∀ e ∈ [(ascii "connection", closeValue r.close)],
      strcasecmpEq e.1 l.1 = false := by
    intro l hl e he
    rw [List.mem_singleton.mp he]
    rcases List.mem_append.mp hl with hl | hl
    · have hne := headers_new h List.mem_cons_self l hl
      rw [strcasecmpEq, decide_eq_false_iff_not] at hne ⊢
      exact fun heq => hne heq.symm
    · rw [(mem_lengthLines.mp hl).2]
      show strcasecmpEq (ascii "connection") (ascii "content-length") = false
      decide
  obtain ⟨hsorted, hmem⟩ := assignAll_new (List.pairwise_singleton _ _) hdistinct hnew
  obtain ⟨hsorted', hmem'⟩ := sentHeaders_spec h
  refine OrdSet.sorted_ext entryLess_order hsorted hsorted' ?_
  intro e
  rw [hmem, hmem', List.mem_append]
  exact or_congr_left List.mem_singleton

/-- the close flag comes back from the header -/
theorem init_close {r₁ : HttpRequest} (hheaders : r₁.headers = r.sentHeaders) :
    r₁.init = { r₁ with close := r.close } := by
  have hfind : r.sentHeaders.find (ascii "connection") = some (closeValue r.close) := by
    obtain ⟨hsorted, hmem⟩ := sentHeaders_spec h
    exact MapType.find_of_mem hsorted ((hmem _).mpr (.inl rfl)) (by decide)
  have hvalue : ∀ b, closeValue b ≠ [] ∧ (!strcasecmpEq (closeValue b) (ascii "keep-alive")) = b := by decide
  rw [HttpRequest.init, hheaders, hfind, Option.getD_some, if_pos (hvalue r.close).1, (hvalue r.close).2]

/-- and the length of the body -/
theorem contentLength_eq (hbody : r.body.length < 2 ^ 64) :
    r.sentHeaders.getU64 (ascii "content-length") = r.body.length := by
  obtain ⟨hsorted, hmem⟩ := sentHeaders_spec h
  by_cases hnil : r.body = []
  · have hno : NoLength r.sentHeaders := by
      intro e he
      rcases (hmem e).mp he with rfl | he | he
      · show strcasecmpEq (ascii "connection") (ascii "content-length") = false
        decide
      · exact headers_new h (by simp) e he
      · exact absurd hnil (mem_lengthLines.mp he).1
    rw [hno.getU64, hnil, List.length_nil]
  · have hline := (hmem _).mpr (.inr (.inr (mem_lengthLines.mpr ⟨hnil, rfl⟩)))
    rw [MapType.getU64, MapType.find_of_mem hsorted hline (by decide), Option.bind_some, lexicalCastU64_decimal hbody,
      Option.getD_some]

end

/-! ## The text -/

def HttpRequest.versionText (r : HttpRequest) : Bytes :=
  ascii "HTTP/" ++ decimal (r.version / 16) ++ ascii "." ++ decimal (r.version % 16)

/-- what stands between the colon of `connection` and its value -/
def HttpRequest.gap (r : HttpRequest) : Bytes := if r.close then [32] else []

/-- the head up to its last byte -/
def HttpRequest.headText (r : HttpRequest) : Bytes :=
  (httpMethodToString r.method ++ [32]) ++ (r.path ++ optPart 63 r.query ++ optPart 35 r.fragment ++ [32]) ++
    (r.versionText ++ crlf) ++ (ascii "connection" ++ [58] ++ r.gap ++ closeValue r.close ++ crlf) ++
    ((r.headers ++ r.lengthLines).map fun l => l.1 ++ [58] ++ [32] ++ l.2 ++ crlf).flatten ++ [13]

section
variable {relaxed : Bool} {r : HttpRequest} (h : Printable relaxed r)
include h

theorem request_dump_eq : r.dump = r.headText ++ [10] ++ r.body := by
  have hfilter : (r.headers.filter fun i => !(!r.websocket && strcasecmpEq i.1 (ascii "connection"))) = r.headers := by
    rw [List.filter_eq_self]
    intro e he
    simp [headers_new h List.mem_cons_self e he]
  have hoptional : ∀ (t : String) (c : UInt8) (s : Bytes), ascii t = [c] →
      ascii (if s = [] then "" else t) ++ s = optPart c s := by
    intro t c s ht
    unfold optPart
    split_ifs with hs
    · rw [hs]
      rfl
    · rw [ht]
      rfl
  have hclose : ∀ b : Bool, ascii "connection:" ++ ascii (if b then " close" else "keep-alive") =
      ascii "connection" ++ [58] ++ (if b then [32] else []) ++ closeValue b := by decide
  have hcolon : ascii ": " = [58] ++ [32] := rfl
  have hlength : ascii "content-length: " = ascii "content-length" ++ [58] ++ [32] := by decide
  have hversion : ascii " HTTP/" = [32] ++ ascii "HTTP/" := rfl
  have hblank : ascii " " = [32] := rfl
  have htail : (if r.body ≠ [] then ascii "content-length: " ++ decimal r.body.length ++ crlf ++ crlf ++ r.body else crlf) =
      (r.lengthLines.map fun l => l.1 ++ [58] ++ [32] ++ l.2 ++ crlf).flatten ++ [13] ++ [10] ++ r.body := by
    unfold HttpRequest.lengthLines
    split_ifs with hbody
    · simp [hlength, crlf]
    · simp [not_not.mp hbody, crlf]
  rw [HttpRequest.dump, hfilter, htail, h.websocket, HttpRequest.headText, HttpRequest.versionText, HttpRequest.gap,
    ← hoptional "?" 63 r.query rfl, ← hoptional "#" 35 r.fragment rfl]
  simp only [Bool.not_false, if_true, hclose, hcolon, hversion, hblank, List.map_append, List.flatten_append,
    List.append_assoc]

/-- the head stands at the start of what has been received -/
theorem take_dump (junk : Bytes) {len : ℕ} (hlen : r.dump.length ≤ len + r.body.length) :
    ∃ w, (r.dump ++ junk).take len = r.headText ++ 10 :: w := by
  have hsplit : r.dump ++ junk = (r.headText ++ [10]) ++ (r.body ++ junk) := by
    rw [request_dump_eq h, List.append_assoc]
  have hhead : (r.headText ++ [10]).length ≤ len := by
    rw [request_dump_eq h, List.length_append] at hlen
    omega
  refine ⟨(r.body ++ junk).take (len - (r.headText ++ [10]).length), ?_⟩
  rw [hsplit, List.take_append, List.take_of_length_le hhead, List.append_assoc, List.singleton_append]

/-! ## Reading it back -/

theorem method_entry : ∃ e ∈ httpMethodMap, e.1 = r.method ∧ e.2 = httpMethodToString r.method ∧ e.1 ≠ .MSEARCH := by
  obtain ⟨e, he, hmethod⟩ := List.mem_map.mp h.method
  have htable : ∀ e ∈ httpMethodMap, e.2 = httpMethodToString e.1 := by decide
  refine ⟨e, he, hmethod, by rw [htable e he, hmethod], ?_⟩
  intro hsearch
  have hdash : (45 : UInt8) ∈ httpMethodToString r.method := by
    rw [← hmethod, hsearch]
    decide
  exact absurd (h.letters 45 hdash).1 (by decide)

theorem request_version : r.versionText ∈ versions ∧ versionNumber r.versionText = r.version := by
  rcases h.version with hv | hv <;> rw [HttpRequest.versionText, hv] <;> decide

theorem lines_readable : ∀ l ∈ r.headers ++ r.lengthLines, Readable l := by
  intro l hl
  rcases List.mem_append.mp hl with hl | hl
  · exact h.headers l hl
  · rw [(mem_lengthLines.mp hl).2]
    have hdigits : ∀ c ∈ decimal r.body.length, valueByte c = true := by
      intro c hc
      have := decimal_digits hc
      exact decide_eq_true ⟨by omega, by omega⟩
    have htoken : IsToken (ascii "content-length") := by decide
    refine ⟨htoken, hdigits, ?_⟩
    intro hhead
    exact absurd (decimal_digits (List.mem_of_head? hhead)).1 (by decide)

/-- the parser along the head -/
theorem head_walk {buffer text z : Bytes} (hbuffer : buffer = text ++ z) (hmax : text.length ≤ maxSize) :
    Walks (machine relaxed) (act buffer) text start (Along {}) r.headText 18
      (Along { r with headers := r.sentHeaders, body := [], close := true }) := by
  obtain ⟨e, he, hmethod, hname, hne⟩ := method_entry h
  obtain ⟨hversion, hnumber⟩ := request_version h
  have hgap : r.gap ∈ [[], [32]] := by
    unfold HttpRequest.gap
    split_ifs <;> decide
  have hconnection : Readable (ascii "connection", closeValue r.close) := by
    have htable : ∀ b, (∀ c ∈ closeValue b, valueByte c = true) ∧ (closeValue b).head? ≠ some 32 := by decide
    have htoken : IsToken (ascii "connection") := by decide
    exact ⟨htoken, (htable r.close).1, (htable r.close).2⟩
  have hcr : next relaxed 13 13 = (18, [.startField]) := next_lift (by decide +kernel) (by decide)
  have hwalk := ((((method_walk (r := {}) hbuffer he hne).append
    (target_walk hbuffer hmax h.path h.query h.fragment rfl rfl)).append (RequestWalk.version_walk hbuffer hversion)).append
    (RequestWalk.line_walk hbuffer hmax hconnection r.gap hgap)).append
    (RequestWalk.lines_walk hbuffer hmax (lines_readable h))
  have hend : ∀ r₁, Walks (machine relaxed) (act buffer) text 13 (Along r₁) [13] 18 (Along r₁) := by
    intro r₁
    refine RequestWalk.walk_one hcr (by decide) ?_
    intro p d _ hd
    exact ⟨_, rfl, hd.setFieldStart.mono (Nat.le_succ p)⟩
  rw [hname] at hwalk
  refine (hwalk.append (hend _)).imp (fun _ _ => id) ?_
  intro p d hd
  have hheaders : assignAll (MapType.assign [] (ascii "connection") (closeValue r.close)) (r.headers ++ r.lengthLines) =
      r.sentHeaders := assignAll_eq h
  refine { hd with data := hd.data.trans ?_ }
  rw [hmethod, hnumber, hheaders, h.websocket]

end

/-- the request of `test_request`, with a query -/
def testRequest : HttpRequest where
  query := ascii "a=%41"
  headers := [(ascii "host", ascii "127.0.0.1")]
  body := ascii "hello sylar"

end Sylar.Http
