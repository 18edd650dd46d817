/-
A request that has been received and is sent on: `HttpRequest::dump` of what the parser has made of any bytes, and the
parser on that text (`http.cpp`, `http_parser.cpp`).

`Received` says what the parser accepts; here it is printed and read again. The text that is sent on is not the one
that came in: the names of the methods and versions are those of the tables, `connection` comes first and is spelled
anew, and a body adds `content-length`, in a second line if there is one already. `forwarded` is the request behind it.
- `forwarded_again`: for all bytes that are accepted, with any body, what is read from the text is the request that was
  sent, and sending it on again changes nothing more.

A target with a scheme is stored without it. Where a path begins behind a scheme and has no slash at its front, the text
that is sent on may be read in another way; `opaque_path_drifts` is such a target.
-/
import Mathlib.Tactic
import Sylar.Core.Scan
import Sylar.Core.OrdSet
import Sylar.Http.Message
import Sylar.Http.Stream
import Sylar.Http.Map
import Sylar.Http.RequestMachine
import Sylar.Http.RequestParser
import Sylar.Http.HeadWalk
import Sylar.Http.RequestWalk
import Sylar.Http.RequestDump
import Sylar.Http.HeadRows
import Sylar.Http.Received

namespace Sylar.Http.Forward

open Sylar.Core Sylar.Core.Scan Sylar.Http.RequestMachine Sylar.Http.RequestWalk Sylar.Http.HeadRows
  Sylar.Http.Received

def connectionKey : Bytes := ascii "connection"

def lengthKey : Bytes := ascii "content-length"

/-- the headers that are printed as they are -/
def passed (r : HttpRequest) : MapType := r.headers.filter fun i => !strcasecmpEq i.1 connectionKey

/-- a request behind `dump` and the parser -/
def forwarded (r : HttpRequest) : HttpRequest :=
  let m := (passed r).assign connectionKey (closeValue r.close)
  { r with headers := if r.body ≠ [] then m.assign lengthKey (decimal r.body.length) else m }

/-! ## Headers -/

theorem strcasecmpEq_comm (a b : Bytes) : strcasecmpEq a b = strcasecmpEq b a := by
  rw [strcasecmpEq, strcasecmpEq, decide_eq_decide]
  exact eq_comm

/-- what an assignment leaves: one entry of the key, spelled as it was if it was there -/
theorem assign_spec {m : MapType} (hm : OrdSet.Sorted entryLess m) (key val : Bytes) :
    ∃ k, strcasecmpEq k key = true ∧ (∀ e ∈ m, strcasecmpEq e.1 key = true → e.1 = k) ∧
      ((∀ e ∈ m, strcasecmpEq e.1 key = false) → k = key) ∧
      ∀ e, e ∈ m.assign key val ↔ e = (k, val) ∨ e ∈ m ∧ strcasecmpEq e.1 key = false := by
  by_cases hnew : ∀ e ∈ m, strcasecmpEq e.1 key = false
  · refine ⟨key, strcasecmpEq_refl key, ?_, fun _ => rfl, ?_⟩
    · intro e he hs
      rw [hnew e he] at hs
      cases hs
    · intro e
      rw [(MapType.assign_new hm hnew val).2]
      exact or_congr_right ⟨fun he => ⟨he, hnew e he⟩, And.left⟩
  · simp only [not_forall, Bool.not_eq_false] at hnew
    obtain ⟨⟨k, v⟩, hk, hsame⟩ := hnew
    obtain ⟨a, b, hab, hassign⟩ := MapType.assign_old hm hk hsame val
    have hapart : (a ++ (k, v) :: b).Pairwise fun x y => strcasecmpEq x.1 y.1 = false := by
      rw [← hab]
      exact hm.imp caseInsensitiveLess_ne
    have hother : ∀ e ∈ a ++ b, strcasecmpEq e.1 key = false := by
      intro e he
      rw [strcasecmpEq_comm, ← strcasecmpEq_congr hsame]
      rw [List.pairwise_append, List.pairwise_cons] at hapart
      obtain ⟨-, ⟨hright, -⟩, hleft⟩ := hapart
      rcases List.mem_append.mp he with he | he
      · rw [strcasecmpEq_comm]
        exact hleft e he _ List.mem_cons_self
      · exact hright e he
    have hmem : ∀ e, e ∈ m ↔ e = (k, v) ∨ e ∈ a ++ b := by
      intro e
      rw [hab, List.mem_append, List.mem_cons, List.mem_append]
      tauto
    refine ⟨k, hsame, ?_, ?_, ?_⟩
    · intro e he hs
      rcases (hmem e).mp he with rfl | he
      · rfl
      · rw [hother e he] at hs
        cases hs
    · intro hno
      rw [hno _ hk] at hsame
      cases hsame
    · intro e
      rw [hassign, List.mem_append, List.mem_cons, hmem]
      constructor
      · rintro (he | rfl | he)
        · exact .inr ⟨.inr (List.mem_append_left b he), hother e (List.mem_append_left b he)⟩
        · exact .inl rfl
        · exact .inr ⟨.inr (List.mem_append_right a he), hother e (List.mem_append_right a he)⟩
      · rintro (rfl | ⟨rfl | he, hs⟩)
        · exact .inr (.inl rfl)
        · rw [hsame] at hs
          cases hs
        · exact (List.mem_append.mp he).imp_right .inr

/-- the same value again -/
theorem assign_same {m : MapType} (hm : OrdSet.Sorted entryLess m) {k v key : Bytes} (he : (k, v) ∈ m)
    (hkey : strcasecmpEq k key = true) : m.assign key v = m := by
  obtain ⟨a, b, hab, hassign⟩ := MapType.assign_old hm he hkey v
  rw [hassign, hab]

theorem same_eq {m : MapType} (hm : OrdSet.Sorted entryLess m) {e e' : Bytes × Bytes} (he : e ∈ m) (he' : e' ∈ m)
    (hs : strcasecmpEq e.1 e'.1 = true) : e = e' := by
  by_contra hne
  have happ : strcasecmpEq e.1 e'.1 = false := by
    have hpair : m.Pairwise fun a b => strcasecmpEq a.1 b.1 = false := hm.imp caseInsensitiveLess_ne
    haveI : Std.Symm fun a b : Bytes × Bytes => strcasecmpEq a.1 b.1 = false :=
      ⟨fun x y hxy => by rw [strcasecmpEq_comm, hxy]⟩
    exact hpair.forall he he' hne
  rw [hs] at happ
  cases happ

section
variable {r : HttpRequest} (hr : OrdSet.Sorted entryLess r.headers)

theorem mem_passed {e : Bytes × Bytes} : e ∈ passed r ↔ e ∈ r.headers ∧ strcasecmpEq e.1 connectionKey = false := by
  rw [passed, List.mem_filter, Bool.not_eq_true']

include hr

theorem passed_sorted : OrdSet.Sorted entryLess (passed r) := hr.filter _

theorem passed_assign : OrdSet.Sorted entryLess ((passed r).assign connectionKey (closeValue r.close)) ∧
    ∀ e, e ∈ (passed r).assign connectionKey (closeValue r.close) ↔
      e = (connectionKey, closeValue r.close) ∨ e ∈ passed r :=
  MapType.assign_new (passed_sorted hr) (fun _ he => (mem_passed.mp he).2) _

theorem forwarded_sorted : OrdSet.Sorted entryLess (forwarded r).headers := by
  rw [forwarded]
  dsimp only
  split_ifs
  · exact MapType.sorted_assign (passed_assign hr).1 _ _
  · exact (passed_assign hr).1

theorem connection_mem : (connectionKey, closeValue r.close) ∈ (forwarded r).headers := by
  have hmem := ((passed_assign hr).2 _).mpr (.inl rfl)
  rw [forwarded]
  dsimp only
  split_ifs
  · obtain ⟨k, -, -, -, hassign⟩ := assign_spec (passed_assign hr).1 lengthKey (decimal r.body.length)
    have hapart : strcasecmpEq connectionKey lengthKey = false := by decide
    exact (hassign _).mpr (.inr ⟨hmem, hapart⟩)
  · exact hmem

theorem length_mem (hbody : r.body ≠ []) :
    ∃ k, strcasecmpEq k lengthKey = true ∧ (k, decimal r.body.length) ∈ (forwarded r).headers := by
  obtain ⟨k, hk, -, -, hassign⟩ := assign_spec (passed_assign hr).1 lengthKey (decimal r.body.length)
  refine ⟨k, hk, ?_⟩
  rw [forwarded]
  dsimp only
  rw [if_pos hbody]
  exact (hassign _).mpr (.inl rfl)

/-- all other headers are those of the request -/
theorem other_mem {e : Bytes × Bytes} (hconnection : strcasecmpEq e.1 connectionKey = false)
    (hlength : r.body ≠ [] → strcasecmpEq e.1 lengthKey = false) : e ∈ (forwarded r).headers ↔ e ∈ r.headers := by
  have hmem : e ∈ (passed r).assign connectionKey (closeValue r.close) ↔ e ∈ r.headers := by
    rw [(passed_assign hr).2, mem_passed]
    refine (or_iff_right ?_).trans (and_iff_left hconnection)
    rintro rfl
    rw [strcasecmpEq_refl] at hconnection
    cases hconnection
  rw [forwarded]
  dsimp only
  split_ifs with hbody
  · obtain ⟨k, hk, -, -, hassign⟩ := assign_spec (passed_assign hr).1 lengthKey (decimal r.body.length)
    rw [hassign, hmem]
    refine (or_iff_right ?_).trans (and_iff_left (hlength hbody))
    rintro rfl
    rw [hlength hbody] at hk
    cases hk
  · exact hmem

/-- sending it on again changes nothing -/
theorem forwarded_forwarded : forwarded (forwarded r) = forwarded r := by
  have hsorted := forwarded_sorted hr
  have hconnection := connection_mem hr
  have hagain : (passed (forwarded r)).assign connectionKey (closeValue r.close) = (forwarded r).headers := by
    refine OrdSet.sorted_ext entryLess_order (passed_assign hsorted).1 hsorted fun e => ?_
    refine ((passed_assign hsorted).2 e).trans ?_
    rw [mem_passed]
    constructor
    · rintro (rfl | he)
      · exact hconnection
      · exact he.1
    · intro he
      cases hs : strcasecmpEq e.1 connectionKey with
      | true => exact .inl (same_eq hsorted he hconnection hs)
      | false => exact .inr ⟨he, rfl⟩
  have hheaders : (forwarded (forwarded r)).headers = (forwarded r).headers := by
    show (if r.body ≠ [] then MapType.assign _ lengthKey (decimal r.body.length) else _) = _
    rw [show (forwarded r).close = r.close from rfl, hagain]
    split_ifs with hbody
    · obtain ⟨k, hk, hmem⟩ := length_mem hr hbody
      exact assign_same hsorted hmem hk
    · rfl
  show ({ r with headers := (forwarded (forwarded r)).headers } : HttpRequest) = { r with headers := (forwarded r).headers }
  rw [hheaders]

/-- the lines of the text store them -/
theorem assignAll_passed : assignAll (MapType.assign [] connectionKey (closeValue r.close)) (passed r ++ r.lengthLines) =
    (forwarded r).headers := by
  have hone : MapType.assign [] connectionKey (closeValue r.close) = [(connectionKey, closeValue r.close)] := rfl
  have hnew : ∀ l ∈ passed r, ∀ e ∈ [(connectionKey, closeValue r.close)], strcasecmpEq e.1 l.1 = false := by
    intro l hl e he
    rw [List.mem_singleton.mp he, strcasecmpEq_comm]
    exact (mem_passed.mp hl).2
  obtain ⟨hsorted, hmem⟩ := assignAll_new (List.pairwise_singleton _ _) ((passed_sorted hr).imp caseInsensitiveLess_ne) hnew
  have hpassed : assignAll [(connectionKey, closeValue r.close)] (passed r) =
      (passed r).assign connectionKey (closeValue r.close) := by
    refine OrdSet.sorted_ext entryLess_order hsorted (passed_assign hr).1 fun e => ?_
    rw [hmem, (passed_assign hr).2]
    exact or_congr_left List.mem_singleton
  have happend : ∀ m (ls ls' : List (Bytes × Bytes)), assignAll m (ls ++ ls') = assignAll (assignAll m ls) ls' :=
    fun m ls ls' => List.foldl_append
  rw [hone, happend, hpassed, HttpRequest.lengthLines, forwarded]
  dsimp only
  split_ifs
  · rfl
  · rfl

/-- the close flag comes back -/
theorem forwarded_init {r₁ : HttpRequest} (hheaders : r₁.headers = (forwarded r).headers) :
    r₁.init = { r₁ with close := r.close } := by
  have hfind : (forwarded r).headers.find (ascii "connection") = some (closeValue r.close) :=
    MapType.find_of_mem (forwarded_sorted hr) (connection_mem hr) (by decide)
  have hvalue : ∀ b, closeValue b ≠ [] ∧ (!strcasecmpEq (closeValue b) (ascii "keep-alive")) = b := by decide
  rw [HttpRequest.init, hheaders, hfind, Option.getD_some, if_pos (hvalue r.close).1, (hvalue r.close).2]

end

/-! ## The text -/

/-- the head up to its last byte -/
def headText (r : HttpRequest) : Bytes :=
  (httpMethodToString r.method ++ [32]) ++ (r.path ++ optPart 63 r.query ++ optPart 35 r.fragment ++ [32]) ++
    (r.versionText ++ crlf) ++ (connectionKey ++ [58] ++ r.gap ++ closeValue r.close ++ crlf) ++
    ((passed r ++ r.lengthLines).map fun l => l.1 ++ [58] ++ [32] ++ l.2 ++ crlf).flatten ++ [13]

theorem dump_text {r : HttpRequest} (h : r.websocket = false) : r.dump = headText r ++ [10] ++ r.body := by
  have hoptional : ∀ (t : String) (c : UInt8) (s : Bytes), ascii t = [c] →
      ascii (if s = [] then "" else t) ++ s = optPart c s := by
    intro t c s ht
    unfold optPart
    split_ifs with hs
    · rw [hs]
      rfl
    · rw [ht]
      rfl
  have hclose : ∀ b : Bool, ascii "connection:" ++ ascii (if b then " close" else "keep-alive") =
      connectionKey ++ [58] ++ (if b then [32] else []) ++ closeValue b := by decide
  have hcolon : ascii ": " = [58] ++ [32] := rfl
  have hlength : ascii "content-length: " = ascii "content-length" ++ [58] ++ [32] := by decide
  have hversion : ascii " HTTP/" = [32] ++ ascii "HTTP/" := rfl
  have hblank : ascii " " = [32] := rfl
  have htail : (if r.body ≠ [] then ascii "content-length: " ++ decimal r.body.length ++ crlf ++ crlf ++ r.body else crlf) =
      (r.lengthLines.map fun l => l.1 ++ [58] ++ [32] ++ l.2 ++ crlf).flatten ++ [13] ++ [10] ++ r.body := by
    unfold HttpRequest.lengthLines
    split_ifs with hbody
    · simp [hlength, crlf]
    · simp [not_not.mp hbody, crlf]
  rw [HttpRequest.dump, htail, h, headText, HttpRequest.versionText, HttpRequest.gap, ← hoptional "?" 63 r.query rfl,
    ← hoptional "#" 35 r.fragment rfl, passed, connectionKey]
  rw [connectionKey] at hclose
  simp only [Bool.not_false, if_true, Bool.true_and, hclose, hcolon, hversion, hblank, List.map_append,
    List.flatten_append, List.append_assoc]

/-! ## Reading it -/

/-- a path that can be read where a target begins -/
theorem path_from {relaxed : Bool} {path : Bytes} (h : PathText relaxed path)
    (hslash : path = [] ∨ path.head? = some 47) : PathFrom relaxed 3 path := by
  obtain ⟨s, hs, hpath⟩ := h
  rcases List.mem_cons.mp hs with rfl | hs
  · exact hpath
  obtain rfl := List.mem_singleton.mp hs
  rcases hpath with rfl | ⟨c, u, s₁, s₂, rfl, hopen, herr, hquiet, hend⟩
  · exact .inl rfl
  have hc : c = 47 := by
    rcases hslash with hnil | hhead
    · cases hnil
    · exact Option.some.inj hhead
  have hnext := @next_lift relaxed _ _ _ _ slash_next.2 (by decide)
  rw [hc, hnext] at hopen
  obtain ⟨rfl, -⟩ := Prod.mk.inj hopen
  exact .inr ⟨c, u, 33, s₂, rfl, by rw [hc]; exact next_lift slash_next.1 (by decide), herr, hquiet, hend⟩

/-- the bytes of a name, as a path of the machine -/
theorem name_path {name : Bytes} (h : NameText name) (relaxed : Bool) :
    ∃ c u s₁ s₂, name = c :: u ∧ next relaxed 13 c = (s₁, [.startField]) ∧ s₁ ≠ error ∧
      quiet (machine relaxed) s₁ u = some s₂ ∧ next relaxed s₂ 58 = (15, [.writeField]) := by
  obtain ⟨c, u, rfl⟩ := List.exists_cons_of_ne_nil h.nonempty
  have hbyte := List.forall_mem_cons.mp h.bytes
  have hcolon : ∀ s ∈ [14, 18], next relaxed s 58 = (15, [.writeField]) := by
    intro s hs
    have htable : ∀ s ∈ [14, 18], next false s 58 = (15, [.writeField]) := by decide +kernel
    exact next_lift (htable s hs) (by decide)
  have hstay : ∀ u : Bytes, (∀ c ∈ u, nameByte c = true) → quiet (machine relaxed) 14 u = some 14 := fun u hu =>
    quiet_stay (by decide) fun x hx => next_lift ((name_next x (mem_bytes x)).1.mpr (hu x hx)) (by decide)
  have hlf : c ≠ 10 := by
    rintro rfl
    exact h.first.1 (List.cons_prefix_cons.mpr ⟨rfl, List.nil_prefix⟩)
  by_cases hcr : c = 13
  · subst hcr
    have hopen := @next_lift relaxed _ _ _ _ ((name_next 13 (mem_bytes 13)).2.2.1.mpr rfl) (by decide)
    cases u with
    | nil => exact ⟨13, [], 18, 18, rfl, hopen, by decide, rfl, hcolon 18 (by decide)⟩
    | cons b u =>
      have hb : b ≠ 10 := by
        rintro rfl
        exact h.first.2 (List.cons_prefix_cons.mpr ⟨rfl, List.cons_prefix_cons.mpr ⟨rfl, List.nil_prefix⟩⟩)
      have hrest := List.forall_mem_cons.mp hbyte.2
      have hnext := @next_lift relaxed _ _ _ _ ((name_next b (mem_bytes b)).2.2.2.1.mpr ⟨hrest.1, hb⟩) (by decide)
      exact ⟨13, b :: u, 18, 14, rfl, hopen, by decide, by rw [quiet_cons hnext (by decide), hstay u hrest.2],
        hcolon 14 (by decide)⟩
  · exact ⟨c, u, 14, 14, rfl, next_lift ((name_next c (mem_bytes c)).2.1.mpr ⟨hbyte.1, hlf, hcr⟩) (by decide), by decide,
      hstay u hbyte.2, hcolon 14 (by decide)⟩

section
variable {relaxed : Bool} {buffer text z : Bytes} (hbuffer : buffer = text ++ z) (hmax : text.length ≤ maxSize)
  {r : HttpRequest}
include hbuffer hmax

/-- the path and the separator behind it -/
theorem path_walk {path : Bytes} (hpath : PathFrom relaxed 3 path) (x : UInt8) (s₃ : ℕ) (is : List Action)
    (hsep : (x, s₃, is) ∈ [((32 : UInt8), 4, [Action.requestUri]), (63, 29, []), (35, 20, [.requestUri])]) :
    Walks (machine relaxed) (act buffer) text 3 (Along r) (path ++ [x]) s₃ (Along { r with path }) := by
  obtain ⟨hends, hempty, herr, his⟩ := path_end_next _ hsep
  rcases hpath with rfl | ⟨c, u, s₁, s₂, rfl, hopen, h1, hquiet, hend⟩
  · have hnext := @next_lift relaxed _ _ _ _ hempty herr
    refine RequestWalk.walk_one hnext herr ?_
    intro p d hp h
    have hstore : act buffer .requestPath p { d with parser := { d.parser with mark := p } } =
        .go { d with parser := { d.parser with mark := p }, data := { d.data with path := [] } } := by
      rw [act, onRequestPath, store, lenFrom_self, str_ok buffer p (Nat.zero_le _), List.take_zero]
      rfl
    refine ⟨{ d with parser := { d.parser with mark := p }, data := { d.data with path := [] } }, ?_, ?_⟩
    · have hmark : act buffer .mark p d = .go { d with parser := { d.parser with mark := p } } := rfl
      rcases his with rfl | rfl
      · simp only [perform, hmark, hstore]
      · simp only [perform, hmark, hstore]
        rfl
    · rw [h.data]
      exact (h.setMark.setData { r with path := [] }).mono (Nat.le_succ p)
  · exact stored_walk hbuffer hmax (·.mark) (fun r s => { r with path := s }) hopen hquiet
      (next_lift (hends s₂ hend) herr) his h1 herr mark_set fun _ _ => rfl

/-- **The target.** -/
theorem target_walk {path query fragment : Bytes} (hpath : PathFrom relaxed 3 path)
    (hquery : UriText (queryChar relaxed) query) (hfragment : UriText (queryChar relaxed) fragment) (hq : r.query = [])
    (hf : r.fragment = []) :
    Walks (machine relaxed) (act buffer) text 3 (Along r) (path ++ optPart 63 query ++ optPart 35 fragment ++ [32]) 4
      (Along { r with path, query, fragment }) := by
  have hblank := path_walk (r := r) hbuffer hmax hpath 32 4 [.requestUri] (by decide)
  have hmark := path_walk (r := r) hbuffer hmax hpath 63 29 [] (by decide)
  have hhash := path_walk (r := r) hbuffer hmax hpath 35 20 [.requestUri] (by decide)
  -- behind the query, or without one
  have hrest : ∀ (r₁ : HttpRequest) {s : Bytes} {k : ℕ}, r₁.fragment = [] →
      Walks (machine relaxed) (act buffer) text k (Along r) (s ++ [32]) 4 (Along r₁) →
      Walks (machine relaxed) (act buffer) text k (Along r) (s ++ [35]) 20 (Along r₁) →
      Walks (machine relaxed) (act buffer) text k (Along r) (s ++ optPart 35 fragment ++ [32]) 4
        (Along { r₁ with fragment }) := by
    intro r₁ s k hr₁ h32 h35
    by_cases hnone : fragment = []
    · have hrec : ({ r₁ with fragment } : HttpRequest) = r₁ := by rw [hnone, ← hr₁]
      rw [hrec, optPart, if_pos hnone, List.append_nil]
      exact h32
    · rw [optPart, if_neg hnone]
      simpa only [List.append_assoc, List.singleton_append, List.cons_append, List.nil_append] using
        h35.append (fragment_walk hbuffer hmax hnone hfragment)
  by_cases hnone : query = []
  · have hrec : ({ r with path, query } : HttpRequest) = { r with path } := by rw [hnone, ← hq]
    have hwalk := hrest { r with path } hf hblank hhash
    rw [← hrec] at hwalk
    rw [optPart, if_pos hnone, List.append_nil]
    exact hwalk
  · have h32 := hmark.append (query_walk hbuffer hmax hnone hquery 32 4 (by decide))
    have h35 := hmark.append (query_walk hbuffer hmax hnone hquery 35 20 (by decide))
    rw [List.append_assoc, List.singleton_append, ← List.cons_append, ← List.append_assoc] at h32 h35
    rw [optPart, if_neg hnone]
    exact hrest { r with path, query } hf h32 h35

omit hmax in
/-- a name and its colon -/
theorem field_walk {name : Bytes} (hname : NameText name) :
    Walks (machine relaxed) (act buffer) text 13 (Along r) (name ++ [58]) 15 (Named buffer r name) := by
  obtain ⟨c, u, s₁, s₂, rfl, hopen, h1, hquiet, hclose⟩ := name_path hname relaxed
  refine RequestWalk.walk_piece (fun p d => Along r p d ∧ d.parser.fieldStart = p) hopen hquiet hclose h1 (by decide) ?_ ?_
  · intro p d h
    exact ⟨_, rfl, h.setFieldStart, rfl⟩
  · intro p d w hw hlt h
    obtain ⟨h, hstart⟩ := h
    refine ⟨_, rfl, ((h.mono (by omega)).setFieldLen (lenFrom_le (by omega))).mono (Nat.le_succ _), ?_, ?_⟩
    · show lenFrom d.parser.fieldStart (p + (c :: u).length) = (c :: u).length
      rw [hstart, lenFrom_add]
    · show (buffer.drop d.parser.fieldStart).take (c :: u).length = c :: u
      rw [hstart]
      exact drop_buffer hbuffer (List.cons_ne_nil c u) hw

/-- a value and the end of its line -/
theorem value_walk {name v : Bytes} (hne : name ≠ []) (hv : ValueText v) :
    Walks (machine relaxed) (act buffer) text 15 (Named buffer r name) (v ++ [13]) 17
      (Along { r with headers := r.headers.assign name v }) := by
  cases v with
  | nil => exact RequestWalk.value_walk hbuffer hmax hne (by simp) (by simp)
  | cons c u =>
    have hbytes := List.forall_mem_cons.mp hv.bytes
    have hopen : next relaxed 15 c = (16, [.startValue]) :=
      next_lift ((field_next c (mem_bytes c)).2.mpr ⟨hbytes.1, hv.first c rfl⟩) (by decide)
    have hclose : next relaxed 16 13 = (17, [.writeValue]) := next_lift (by decide +kernel) (by decide)
    have hquiet : quiet (machine relaxed) 16 u = some 16 :=
      quiet_stay (by decide) fun x hx => next_lift ((field_next x (mem_bytes x)).1.mpr (hbytes.2 x hx)) (by decide)
    refine RequestWalk.walk_piece (fun p d => Named buffer r name p d ∧ d.parser.mark = p) hopen hquiet hclose (by decide)
      (by decide) ?_ ?_
    · intro p d h
      exact ⟨_, rfl, ⟨h.toAlong.setMark, h.length, h.name⟩, rfl⟩
    · intro p d w hw hlt h
      obtain ⟨h, hmark⟩ := h
      have htext : (buffer.drop d.parser.mark).take (c :: u).length = c :: u := by
        rw [hmark]
        exact drop_buffer hbuffer (List.cons_ne_nil c u) hw
      have hwrite := writeValue_eq hmax hne h (by omega) (by rw [hmark]) hlt.le htext
      refine ⟨_, ?_, (h.toAlong.mono (by omega)).setData _⟩
      simp only [perform, hwrite]

theorem line_walk {l : Bytes × Bytes} (hl : Storable l) (gap : Bytes) (hgap : gap ∈ [[], [32]]) :
    Walks (machine relaxed) (act buffer) text 13 (Along r) (l.1 ++ [58] ++ gap ++ l.2 ++ crlf) 13
      (Along { r with headers := r.headers.assign l.1 l.2 }) := by
  have hblanks : Walks (machine relaxed) (act buffer) text 15 (Named buffer r l.1) gap 15 (Named buffer r l.1) := by
    rcases List.mem_cons.mp hgap with rfl | hgap
    · exact Walks.nil 15 fun _ _ => id
    · rw [List.mem_singleton.mp hgap]
      have hblank : next relaxed 15 32 = (15, [.startValue]) := next_lift (by decide +kernel) (by decide)
      refine RequestWalk.walk_one hblank (by decide) ?_
      intro p d _ h
      exact ⟨_, rfl, h.toAlong.setMark.mono (Nat.le_succ p), h.length, h.name⟩
  have hlf : quiet (machine relaxed) 17 [10] = some 13 := quiet_lift (by decide +kernel)
  have hline := (((field_walk hbuffer hl.1).append hblanks).append
    (value_walk hbuffer hmax hl.1.nonempty hl.2)).append (quiet_walk hlf)
  simpa only [crlf, List.append_assoc, List.cons_append, List.nil_append] using hline

theorem lines_walk {ls : List (Bytes × Bytes)} (hls : ∀ l ∈ ls, Storable l) :
    Walks (machine relaxed) (act buffer) text 13 (Along r) (ls.map fun l => l.1 ++ [58] ++ [32] ++ l.2 ++ crlf).flatten 13
      (Along { r with headers := assignAll r.headers ls }) := by
  induction ls generalizing r with
  | nil => exact Walks.nil 13 fun _ _ => id
  | cons l ls ih =>
    rw [List.map_cons, List.flatten_cons]
    exact (line_walk hbuffer hmax (hls l List.mem_cons_self) [32] (by decide)).append
      (ih fun x hx => hls x (List.mem_cons_of_mem l hx))

end

/-! ## Sending on -/

/-- a request that can be read where its text begins -/
structure Sendable (relaxed : Bool) (r : HttpRequest) : Prop where
  websocket : r.websocket = false
  method : ∃ e ∈ httpMethodMap, e.1 ≠ .MSEARCH ∧ r.method = e.1
  version : r.version = 0x10 ∨ r.version = 0x11
  path : PathFrom relaxed 3 r.path
  query : UriText (queryChar relaxed) r.query
  fragment : UriText (queryChar relaxed) r.fragment
  headers : HeadersOk r.headers

theorem sendable {relaxed : Bool} {r : HttpRequest} (h : Accepted relaxed r)
    (hslash : r.path = [] ∨ r.path.head? = some 47) (body : Bytes) : Sendable relaxed { r.init with body } := by
  have hinit : ∃ close, r.init = { r with close } := by
    rw [HttpRequest.init]
    split_ifs
    · exact ⟨_, rfl⟩
    · exact ⟨r.close, rfl⟩
  obtain ⟨close, hclose⟩ := hinit
  rw [hclose]
  exact ⟨h.rest.1, h.method, h.version, path_from h.path hslash, h.query, h.fragment, h.headers⟩

theorem valueText_of {v : Bytes} (h : ∀ c ∈ v, fieldByte c = true ∧ isBlank c = false) : ValueText v :=
  ⟨fun c hc => (h c hc).1, fun c hc => (h c (List.mem_of_head? hc)).2⟩

/-- the lines of the two headers that the printer writes by itself -/
theorem connection_storable (b : Bool) : Storable (connectionKey, closeValue b) := by
  have hname : connectionKey ≠ [] ∧ (∀ c ∈ connectionKey, nameByte c = true) ∧ ¬[10] <+: connectionKey ∧
      ¬crlf <+: connectionKey := by decide
  have hvalue : ∀ b, ∀ c ∈ closeValue b, fieldByte c = true ∧ isBlank c = false := by decide
  exact ⟨⟨hname.1, hname.2.1, hname.2.2⟩, valueText_of (hvalue b)⟩

theorem length_storable (n : ℕ) : Storable (lengthKey, decimal n) := by
  have hname : lengthKey ≠ [] ∧ (∀ c ∈ lengthKey, nameByte c = true) ∧ ¬[10] <+: lengthKey ∧ ¬crlf <+: lengthKey := by
    decide
  have hdigit : ∀ c ∈ bytes, 48 ≤ c.toNat → c.toNat ≤ 57 → fieldByte c = true ∧ isBlank c = false := by decide +kernel
  refine ⟨⟨hname.1, hname.2.1, hname.2.2⟩, valueText_of fun c hc => ?_⟩
  exact hdigit c (mem_bytes c) (decimal_digits hc).1 (decimal_digits hc).2

section
variable {relaxed : Bool} {r : HttpRequest} (h : Sendable relaxed r)
include h

theorem lines_storable : ∀ l ∈ passed r ++ r.lengthLines, Storable l := by
  intro l hl
  rcases List.mem_append.mp hl with hl | hl
  · exact h.headers.storable l (mem_passed.mp hl).1
  · rw [(mem_lengthLines.mp hl).2]
    exact length_storable r.body.length

/-- the parser along the head -/
theorem head_walk {buffer text z : Bytes} (hbuffer : buffer = text ++ z) (hmax : text.length ≤ maxSize) :
    Walks (machine relaxed) (act buffer) text start (Along {}) (headText r) 18
      (Along { r with headers := (forwarded r).headers, body := [], close := true }) := by
  obtain ⟨e, he, hne, hmethod⟩ := h.method
  have hname : e.2 = httpMethodToString r.method := by
    rw [hmethod]
    exact (show ∀ e ∈ httpMethodMap, e.2 = httpMethodToString e.1 by decide) e he
  have hversion : r.versionText ∈ versions ∧ versionNumber r.versionText = r.version := by
    rcases h.version with hv | hv <;> rw [HttpRequest.versionText, hv] <;> decide
  have hgap : r.gap ∈ [[], [32]] := by
    unfold HttpRequest.gap
    split_ifs <;> decide
  have hcr : next relaxed 13 13 = (18, [.startField]) := next_lift (by decide +kernel) (by decide)
  have hwalk := ((((RequestWalk.method_walk (r := {}) hbuffer he hne).append
    (target_walk hbuffer hmax h.path h.query h.fragment rfl rfl)).append (RequestWalk.version_walk hbuffer hversion.1)).append
    (line_walk hbuffer hmax (connection_storable r.close) r.gap hgap)).append
    (lines_walk hbuffer hmax (lines_storable h))
  have hend : ∀ r₁, Walks (machine relaxed) (act buffer) text 13 (Along r₁) [13] 18 (Along r₁) := by
    intro r₁
    refine RequestWalk.walk_one hcr (by decide) ?_
    intro p d _ hd
    exact ⟨_, rfl, hd.setFieldStart.mono (Nat.le_succ p)⟩
  rw [hname] at hwalk
  refine (hwalk.append (hend _)).imp (fun _ _ => id) ?_
  intro p d hd
  refine { hd with data := hd.data.trans ?_ }
  rw [← hmethod, hversion.2, assignAll_passed h.headers.sorted, h.websocket]

/-- **Printed and read.** -/
theorem read_dump (queryStart : ℕ) (junk : Bytes) (hmax : (r.dump ++ junk).length ≤ maxSize) {len : ℕ}
    (hlen : r.dump.length ≤ len + r.body.length) :
    ∃ d n, httpParserExecute (.new queryStart relaxed) (r.dump ++ junk) len = .ok (d, n) ∧ d.hasError = false ∧
      d.isFinished = true ∧ { d.data.init with body := r.body } = forwarded r ∧ r.dump.drop n = r.body := by
  have hdump := dump_text h.websocket
  have hsize : r.dump.length = (headText r).length + 1 + r.body.length := by
    rw [hdump, List.length_append, List.length_append, List.length_singleton]
  have hfit : r.dump.length ≤ maxSize := by
    rw [List.length_append] at hmax
    omega
  have hw : ∃ w, (r.dump ++ junk).take len = headText r ++ 10 :: w := by
    have hsplit : r.dump ++ junk = (headText r ++ [10]) ++ (r.body ++ junk) := by rw [hdump, List.append_assoc]
    have hhead : (headText r ++ [10]).length ≤ len := by
      rw [List.length_append, List.length_singleton]
      omega
    refine ⟨(r.body ++ junk).take (len - (headText r ++ [10]).length), ?_⟩
    rw [hsplit, List.take_append, List.take_of_length_le hhead, List.append_assoc, List.singleton_append]
  obtain ⟨w, hw⟩ := hw
  generalize r.dump ++ junk = buffer at hmax hw ⊢
  have hbuffer : buffer = buffer.take len ++ buffer.drop len := (List.take_append_drop len buffer).symm
  have htext : (buffer.take len).length ≤ maxSize := (List.take_sublist len buffer).length_le.trans hmax
  have hnew : Along {} 0 (.new queryStart relaxed) :=
    ⟨{ new_holds queryStart relaxed with
        query := fun hq => absurd hq Bool.false_ne_true
        fresh := fun hf => absurd hf (by decide)
        method := fun hm => absurd hm (by decide) }, rfl, rfl⟩
  obtain ⟨d, hd, halong⟩ := head_walk h hbuffer htext 0 _ (10 :: w) hw hnew
  rw [Nat.zero_add] at hd halong
  have hlast : next relaxed 18 10 = (firstFinal, [.done]) := next_lift (by decide +kernel) (by decide)
  have hdone : act buffer .done (headText r).length d =
      .fbreak { d with parser := { d.parser with bodyStart := (headText r).length + 1 } } := by
    rw [act, if_neg (by rw [halong.plain]; exact Bool.false_ne_true)]
  have hexec : exec (machine relaxed) (act buffer) (buffer.take len) 0 start (.new queryStart relaxed) =
      .ok ((headText r).length + 1, firstFinal,
        { d with parser := { d.parser with bodyStart := (headText r).length + 1 } }) := by
    rw [hw, hd]
    exact exec_done hlast hdone w
  have hold : Holds ⟨.other, false⟩ ((headText r).length + 1 - 1)
      { d with parser := { d.parser with bodyStart := (headText r).length + 1 } } :=
    { halong.toHolds with bodyStart := le_refl _ }
  have hcs : (start : ℕ) ≠ error := by decide
  have hcall := httpParserExecute_of_exec (.new queryStart relaxed) len hcs rfl (Nat.succ_pos _) (by omega) hexec hold
  refine ⟨_, _, hcall, ?_, rfl, ?_, ?_⟩
  · show decide (d.error ≠ 0 ∨ firstFinal = error) = false
    rw [halong.error]
    decide
  · show ({ d.data.init with body := r.body } : HttpRequest) = forwarded r
    have hinit := forwarded_init h.headers.sorted
      (show ({ r with headers := (forwarded r).headers, body := [], close := true } : HttpRequest).headers = _ from rfl)
    rw [halong.data, hinit]
    rfl
  · rw [hdump, List.drop_left' (by rw [List.length_append, List.length_singleton])]

end

/-- **Received and sent on.** Whatever bytes a head was accepted from: with any body, the text of the request is
accepted, up to the body; what is read from it is the request with `connection` and `content-length` spelled anew, and
a second time it does not change. -/
theorem forwarded_again {queryStart : ℕ} {relaxed : Bool} {buffer : Bytes} {len n : ℕ} {d : HttpRequestParser}
    (h : httpParserExecute (.new queryStart relaxed) buffer len = .ok (d, n)) (herror : d.hasError = false)
    (hhead : d.parser.cs = firstFinal) (hslash : d.data.path = [] ∨ d.data.path.head? = some 47) {r : HttpRequest}
    (hr : r = { d.data.init with body := r.body }) (queryStart' : ℕ) (junk : Bytes)
    (hmax : (r.dump ++ junk).length ≤ maxSize) {len' : ℕ} (hlen : r.dump.length ≤ len' + r.body.length) :
    ∃ d' n', httpParserExecute (.new queryStart' relaxed) (r.dump ++ junk) len' = .ok (d', n') ∧ d'.hasError = false ∧
      d'.isFinished = true ∧ { d'.data.init with body := r.body } = forwarded r ∧ r.dump.drop n' = r.body ∧
      forwarded (forwarded r) = forwarded r := by
  have hsend : Sendable relaxed r := by
    rw [hr]
    exact sendable (received h herror hhead) hslash r.body
  obtain ⟨d', n', hcall, hsound, hfinished, hdata, hbody⟩ := read_dump hsend queryStart' junk hmax hlen
  exact ⟨d', n', hcall, hsound, hfinished, hdata, hbody, forwarded_forwarded hsend.headers.sorted⟩

/-- what is sent on for the folded head -/
def foldedRequest : HttpRequest := { foldedParser.data.init with body := ascii "hi" }

theorem forwarded_again_folded : ∃ d n,
    httpParserExecute (.new 0 false) (foldedRequest.dump ++ []) foldedRequest.dump.length = .ok (d, n) ∧ d.hasError = false ∧
      d.isFinished = true ∧ { d.data.init with body := foldedRequest.body } = forwarded foldedRequest ∧
      foldedRequest.dump.drop n = foldedRequest.body ∧ forwarded (forwarded foldedRequest) = forwarded foldedRequest :=
  forwarded_again folded_read (by decide) rfl (.inr rfl) rfl 0 [] (by decide +kernel) (Nat.le_add_right _ _)

/-- the path that is stored -/
def pathOf (text : Bytes) : Option Bytes := (httpParserExecute (.new 0 false) text text.length).toOption.map (·.1.data.path)

/-- a target with two colons: its path is read as a scheme and a path the second time -/
theorem opaque_path_drifts : pathOf (ascii "GET a:b:c HTTP/1.1\r\n\r\n") = some (ascii "b:c") ∧
    pathOf (HttpRequest.dump { path := ascii "b:c" }) = some (ascii "c") := by
  decide +kernel

end Sylar.Http.Forward
