/-
The response machine: the states of `httpclient_parser.c`, which Ragel made from the grammar of
`httpclient_parser.rl`.

The C file is a `switch` over the states with a chain of tests on `*p` in each; here a state is the list of its edges,
and the first edge whose bytes include the symbol is taken. Bytes that no edge has lead to the error state 0. The
machine reads a response head or one chunk-size line; it is final in state 120 (`first_final`), while 121 to 123 are
final states reached when a field without a value is the last one and its line ends in a bare LF.

`checkEdges` looks at every edge of every state; `next_edges` carries its result to every transition.
-/
import Mathlib.Tactic
import Sylar.Core.Scan

namespace Sylar.Http.ResponseMachine

open Sylar.Core.Scan

/-- the actions of the grammar -/
inductive Action where
  | mark
  | startField
  | writeField
  | startValue
  | writeContentLen
  | writeConnectionClose
  | writeValue
  | reasonPhrase
  | statusCode
  | httpVersion
  | chunkSize
  | transChunked
  | done
deriving DecidableEq, Repr

/-- a set of bytes, by ranges -/
abbrev Ranges := List (ℕ × ℕ)

def Ranges.has (r : Ranges) (c : UInt8) : Bool := r.any fun x => decide (x.1 ≤ c.toNat ∧ c.toNat ≤ x.2)

def byte (n : ℕ) : Ranges := [(n, n)]

/-- a letter in both cases, by its upper case -/
def letter (n : ℕ) : Ranges := [(n, n), (n + 32, n + 32)]

def lf : Ranges := byte 10
def cr : Ranges := byte 13
def sp : Ranges := byte 32
def colon : Ranges := byte 58
def digit : Ranges := [(48, 57)]
def xdigit : Ranges := [(48, 57), (65, 70), (97, 102)]
def space : Ranges := [(9, 13), (32, 32)]
def any : Ranges := [(0, 255)]
def token : Ranges :=
  [(33, 33), (35, 39), (42, 43), (45, 46), (48, 57), (65, 90), (94, 122), (124, 124), (126, 126)]

structure Edge where
  on : Ranges
  target : ℕ
  actions : List Action
deriving DecidableEq, Repr

/-- the edges of the states 0 to 123 -/
def states : List (List Edge) :=
  [[],
    [⟨byte 72, 8, [.mark]⟩, ⟨xdigit, 2, [.mark]⟩],
    [⟨lf, 120, [.chunkSize, .done]⟩, ⟨cr, 3, [.chunkSize]⟩, ⟨byte 59, 4, [.chunkSize]⟩, ⟨xdigit, 2, []⟩],
    [⟨lf, 120, [.done]⟩],
    [⟨token, 5, [.startField]⟩],
    [⟨lf, 120, [.writeField, .startValue, .writeValue, .done]⟩, ⟨cr, 3, [.writeField, .startValue, .writeValue]⟩,
      ⟨byte 59, 4, [.writeField, .startValue, .writeValue]⟩, ⟨byte 61, 6, [.writeField, .startValue]⟩,
      ⟨token, 5, []⟩],
    [⟨token, 7, [.startValue]⟩],
    [⟨lf, 120, [.writeValue, .done]⟩, ⟨cr, 3, [.writeValue]⟩, ⟨byte 59, 4, [.writeValue]⟩, ⟨token, 7, []⟩],
    [⟨byte 84, 9, []⟩],
    [⟨byte 84, 10, []⟩],
    [⟨byte 80, 11, []⟩],
    [⟨byte 47, 12, []⟩],
    [⟨digit, 13, []⟩],
    [⟨byte 46, 14, []⟩, ⟨digit, 13, []⟩],
    [⟨digit, 15, []⟩],
    [⟨sp, 16, [.httpVersion]⟩, ⟨digit, 15, []⟩],
    [⟨digit, 17, [.mark]⟩],
    [⟨sp, 18, [.statusCode]⟩, ⟨digit, 17, []⟩],
    [⟨[(0, 9), (11, 255)], 19, [.mark]⟩],
    [⟨lf, 20, [.reasonPhrase]⟩, ⟨cr, 24, [.reasonPhrase]⟩, ⟨any, 19, []⟩],
    [⟨lf, 120, [.done]⟩, ⟨cr, 3, []⟩, ⟨letter 67, 25, [.startField]⟩, ⟨letter 84, 44, [.startField]⟩,
      ⟨token, 21, [.startField]⟩],
    [⟨colon, 22, [.writeField]⟩, ⟨token, 21, []⟩],
    [⟨lf, 20, [.startValue, .writeValue]⟩, ⟨cr, 24, [.startValue, .writeValue]⟩, ⟨space, 22, [.startValue]⟩,
      ⟨any, 23, [.startValue]⟩],
    [⟨lf, 20, [.writeValue]⟩, ⟨cr, 24, [.writeValue]⟩, ⟨any, 23, []⟩],
    [⟨lf, 20, []⟩],
    [⟨colon, 22, [.writeField]⟩, ⟨letter 79, 26, []⟩, ⟨token, 21, []⟩],
    [⟨colon, 22, [.writeField]⟩, ⟨letter 78, 27, []⟩, ⟨token, 21, []⟩],
    [⟨colon, 22, [.writeField]⟩, ⟨letter 78, 28, []⟩, ⟨letter 84, 101, []⟩, ⟨token, 21, []⟩],
    [⟨colon, 22, [.writeField]⟩, ⟨letter 69, 29, []⟩, ⟨token, 21, []⟩],
    [⟨colon, 22, [.writeField]⟩, ⟨letter 67, 30, []⟩, ⟨token, 21, []⟩],
    [⟨colon, 22, [.writeField]⟩, ⟨letter 84, 31, []⟩, ⟨token, 21, []⟩],
    [⟨colon, 22, [.writeField]⟩, ⟨letter 73, 32, []⟩, ⟨token, 21, []⟩],
    [⟨colon, 22, [.writeField]⟩, ⟨letter 79, 33, []⟩, ⟨token, 21, []⟩],
    [⟨colon, 22, [.writeField]⟩, ⟨letter 78, 34, []⟩, ⟨token, 21, []⟩],
    [⟨colon, 35, [.writeField]⟩, ⟨token, 21, []⟩],
    [⟨lf, 36, [.startValue, .writeValue]⟩, ⟨cr, 95, [.startValue, .writeValue]⟩, ⟨letter 67, 96, [.startValue]⟩,
      ⟨space, 35, [.startValue]⟩, ⟨any, 23, [.startValue]⟩],
    [⟨lf, 122, [.done]⟩, ⟨cr, 89, []⟩, ⟨letter 67, 90, [.startField]⟩, ⟨letter 84, 44, [.startField]⟩,
      ⟨space, 37, []⟩, ⟨token, 21, [.startField]⟩],
    [⟨letter 67, 38, []⟩, ⟨space, 37, []⟩],
    [⟨letter 76, 39, []⟩],
    [⟨letter 79, 40, []⟩],
    [⟨letter 83, 41, []⟩],
    [⟨letter 69, 42, []⟩],
    [⟨lf, 43, []⟩, ⟨cr, 88, []⟩],
    [⟨lf, 120, [.writeConnectionClose, .done]⟩, ⟨cr, 3, [.writeConnectionClose]⟩,
      ⟨letter 67, 25, [.writeConnectionClose, .startField]⟩, ⟨letter 84, 44, [.writeConnectionClose, .startField]⟩,
      ⟨token, 21, [.writeConnectionClose, .startField]⟩],
    [⟨colon, 22, [.writeField]⟩, ⟨letter 82, 45, []⟩, ⟨token, 21, []⟩],
    [⟨colon, 22, [.writeField]⟩, ⟨letter 65, 46, []⟩, ⟨token, 21, []⟩],
    [⟨colon, 22, [.writeField]⟩, ⟨letter 78, 47, []⟩, ⟨token, 21, []⟩],
    [⟨colon, 22, [.writeField]⟩, ⟨letter 83, 48, []⟩, ⟨token, 21, []⟩],
    [⟨colon, 22, [.writeField]⟩, ⟨letter 70, 49, []⟩, ⟨token, 21, []⟩],
    [⟨colon, 22, [.writeField]⟩, ⟨letter 69, 50, []⟩, ⟨token, 21, []⟩],
    [⟨colon, 22, [.writeField]⟩, ⟨letter 82, 51, []⟩, ⟨token, 21, []⟩],
    [⟨byte 45, 52, []⟩, ⟨colon, 22, [.writeField]⟩, ⟨token, 21, []⟩],
    [⟨colon, 22, [.writeField]⟩, ⟨letter 69, 53, []⟩, ⟨token, 21, []⟩],
    [⟨colon, 22, [.writeField]⟩, ⟨letter 78, 54, []⟩, ⟨token, 21, []⟩],
    [⟨colon, 22, [.writeField]⟩, ⟨letter 67, 55, []⟩, ⟨token, 21, []⟩],
    [⟨colon, 22, [.writeField]⟩, ⟨letter 79, 56, []⟩, ⟨token, 21, []⟩],
    [⟨colon, 22, [.writeField]⟩, ⟨letter 68, 57, []⟩, ⟨token, 21, []⟩],
    [⟨colon, 22, [.writeField]⟩, ⟨letter 73, 58, []⟩, ⟨token, 21, []⟩],
    [⟨colon, 22, [.writeField]⟩, ⟨letter 78, 59, []⟩, ⟨token, 21, []⟩],
    [⟨colon, 22, [.writeField]⟩, ⟨letter 71, 60, []⟩, ⟨token, 21, []⟩],
    [⟨colon, 61, [.writeField]⟩, ⟨token, 21, []⟩],
    [⟨lf, 62, [.startValue, .writeValue]⟩, ⟨cr, 80, [.startValue, .writeValue]⟩, ⟨letter 67, 81, [.startValue]⟩,
      ⟨space, 61, [.startValue]⟩, ⟨any, 23, [.startValue]⟩],
    [⟨lf, 121, [.done]⟩, ⟨cr, 72, []⟩, ⟨letter 67, 73, [.startValue, .startField]⟩, ⟨letter 84, 44, [.startField]⟩,
      ⟨space, 63, []⟩, ⟨token, 21, [.startField]⟩],
    [⟨letter 67, 64, [.startValue]⟩, ⟨space, 63, []⟩],
    [⟨letter 72, 65, []⟩],
    [⟨letter 85, 66, []⟩],
    [⟨letter 78, 67, []⟩],
    [⟨letter 75, 68, []⟩],
    [⟨letter 69, 69, []⟩],
    [⟨letter 68, 70, []⟩],
    [⟨lf, 20, [.writeValue, .transChunked]⟩, ⟨cr, 71, [.writeValue]⟩],
    [⟨lf, 20, [.transChunked]⟩],
    [⟨lf, 121, [.done]⟩, ⟨letter 67, 64, [.startValue]⟩, ⟨space, 63, []⟩],
    [⟨colon, 22, [.writeField]⟩, ⟨letter 72, 74, []⟩, ⟨letter 79, 26, []⟩, ⟨token, 21, []⟩],
    [⟨colon, 22, [.writeField]⟩, ⟨letter 85, 75, []⟩, ⟨token, 21, []⟩],
    [⟨colon, 22, [.writeField]⟩, ⟨letter 78, 76, []⟩, ⟨token, 21, []⟩],
    [⟨colon, 22, [.writeField]⟩, ⟨letter 75, 77, []⟩, ⟨token, 21, []⟩],
    [⟨colon, 22, [.writeField]⟩, ⟨letter 69, 78, []⟩, ⟨token, 21, []⟩],
    [⟨colon, 22, [.writeField]⟩, ⟨letter 68, 79, []⟩, ⟨token, 21, []⟩],
    [⟨lf, 20, [.writeValue, .transChunked]⟩, ⟨cr, 71, [.writeValue]⟩, ⟨colon, 22, [.writeField]⟩, ⟨token, 21, []⟩],
    [⟨lf, 62, []⟩, ⟨letter 67, 64, [.startValue]⟩, ⟨space, 63, []⟩],
    [⟨lf, 20, [.writeValue]⟩, ⟨cr, 24, [.writeValue]⟩, ⟨letter 72, 82, []⟩, ⟨any, 23, []⟩],
    [⟨lf, 20, [.writeValue]⟩, ⟨cr, 24, [.writeValue]⟩, ⟨letter 85, 83, []⟩, ⟨any, 23, []⟩],
    [⟨lf, 20, [.writeValue]⟩, ⟨cr, 24, [.writeValue]⟩, ⟨letter 78, 84, []⟩, ⟨any, 23, []⟩],
    [⟨lf, 20, [.writeValue]⟩, ⟨cr, 24, [.writeValue]⟩, ⟨letter 75, 85, []⟩, ⟨any, 23, []⟩],
    [⟨lf, 20, [.writeValue]⟩, ⟨cr, 24, [.writeValue]⟩, ⟨letter 69, 86, []⟩, ⟨any, 23, []⟩],
    [⟨lf, 20, [.writeValue]⟩, ⟨cr, 24, [.writeValue]⟩, ⟨letter 68, 87, []⟩, ⟨any, 23, []⟩],
    [⟨lf, 20, [.writeValue, .transChunked]⟩, ⟨cr, 71, [.writeValue]⟩, ⟨any, 23, []⟩],
    [⟨lf, 43, []⟩],
    [⟨lf, 122, [.done]⟩, ⟨letter 67, 38, []⟩, ⟨space, 37, []⟩],
    [⟨colon, 22, [.writeField]⟩, ⟨letter 76, 91, []⟩, ⟨letter 79, 26, []⟩, ⟨token, 21, []⟩],
    [⟨colon, 22, [.writeField]⟩, ⟨letter 79, 92, []⟩, ⟨token, 21, []⟩],
    [⟨colon, 22, [.writeField]⟩, ⟨letter 83, 93, []⟩, ⟨token, 21, []⟩],
    [⟨colon, 22, [.writeField]⟩, ⟨letter 69, 94, []⟩, ⟨token, 21, []⟩],
    [⟨lf, 43, []⟩, ⟨cr, 88, []⟩, ⟨colon, 22, [.writeField]⟩, ⟨token, 21, []⟩],
    [⟨lf, 36, []⟩, ⟨letter 67, 38, []⟩, ⟨space, 37, []⟩],
    [⟨lf, 20, [.writeValue]⟩, ⟨cr, 24, [.writeValue]⟩, ⟨letter 76, 97, []⟩, ⟨any, 23, []⟩],
    [⟨lf, 20, [.writeValue]⟩, ⟨cr, 24, [.writeValue]⟩, ⟨letter 79, 98, []⟩, ⟨any, 23, []⟩],
    [⟨lf, 20, [.writeValue]⟩, ⟨cr, 24, [.writeValue]⟩, ⟨letter 83, 99, []⟩, ⟨any, 23, []⟩],
    [⟨lf, 20, [.writeValue]⟩, ⟨cr, 24, [.writeValue]⟩, ⟨letter 69, 100, []⟩, ⟨any, 23, []⟩],
    [⟨lf, 43, [.writeValue]⟩, ⟨cr, 88, [.writeValue]⟩, ⟨any, 23, []⟩],
    [⟨colon, 22, [.writeField]⟩, ⟨letter 69, 102, []⟩, ⟨token, 21, []⟩],
    [⟨colon, 22, [.writeField]⟩, ⟨letter 78, 103, []⟩, ⟨token, 21, []⟩],
    [⟨colon, 22, [.writeField]⟩, ⟨letter 84, 104, []⟩, ⟨token, 21, []⟩],
    [⟨byte 45, 105, []⟩, ⟨colon, 22, [.writeField]⟩, ⟨token, 21, []⟩],
    [⟨colon, 22, [.writeField]⟩, ⟨letter 76, 106, []⟩, ⟨token, 21, []⟩],
    [⟨colon, 22, [.writeField]⟩, ⟨letter 69, 107, []⟩, ⟨token, 21, []⟩],
    [⟨colon, 22, [.writeField]⟩, ⟨letter 78, 108, []⟩, ⟨token, 21, []⟩],
    [⟨colon, 22, [.writeField]⟩, ⟨letter 71, 109, []⟩, ⟨token, 21, []⟩],
    [⟨colon, 22, [.writeField]⟩, ⟨letter 84, 110, []⟩, ⟨token, 21, []⟩],
    [⟨colon, 22, [.writeField]⟩, ⟨letter 72, 111, []⟩, ⟨token, 21, []⟩],
    [⟨colon, 112, [.writeField]⟩, ⟨token, 21, []⟩],
    [⟨lf, 113, [.startValue, .writeValue]⟩, ⟨cr, 118, [.startValue, .writeValue]⟩, ⟨space, 112, [.startValue]⟩,
      ⟨digit, 119, [.startValue]⟩, ⟨any, 23, [.startValue]⟩],
    [⟨lf, 123, [.done]⟩, ⟨cr, 116, []⟩, ⟨letter 67, 25, [.startField]⟩, ⟨letter 84, 44, [.startField]⟩,
      ⟨space, 114, []⟩, ⟨digit, 117, [.startValue, .startField]⟩, ⟨token, 21, [.startField]⟩],
    [⟨space, 114, []⟩, ⟨digit, 115, [.startValue]⟩],
    [⟨lf, 20, [.writeContentLen, .writeValue]⟩, ⟨cr, 24, [.writeContentLen, .writeValue]⟩, ⟨digit, 115, []⟩],
    [⟨lf, 123, [.done]⟩, ⟨space, 114, []⟩, ⟨digit, 115, [.startValue]⟩],
    [⟨lf, 20, [.writeContentLen, .writeValue]⟩, ⟨cr, 24, [.writeContentLen, .writeValue]⟩,
      ⟨colon, 22, [.writeField]⟩, ⟨digit, 117, []⟩, ⟨token, 21, []⟩],
    [⟨lf, 113, []⟩, ⟨space, 114, []⟩, ⟨digit, 115, [.startValue]⟩],
    [⟨lf, 20, [.writeContentLen, .writeValue]⟩, ⟨cr, 24, [.writeContentLen, .writeValue]⟩, ⟨digit, 119, []⟩,
      ⟨any, 23, []⟩],
    [],
    [⟨letter 67, 64, [.startValue]⟩, ⟨space, 63, []⟩],
    [⟨letter 67, 38, []⟩, ⟨space, 37, []⟩],
    [⟨space, 114, []⟩, ⟨digit, 115, [.startValue]⟩]]

def start : ℕ := 1
def firstFinal : ℕ := 120
def error : ℕ := 0

/-- one turn of `httpclient_parser_execute` -/
def next (cs : ℕ) (c : UInt8) : ℕ × List Action :=
  ((states.getD cs []).find? fun e => e.on.has c).elim (error, []) fun e => (e.target, e.actions)

def machine : Machine ℕ UInt8 Action := ⟨next, error⟩

/-- the action that ends the scan -/
def isDone (a : Action) : Bool := decide (a = .done)

/-! ## Facts about all transitions -/

/-- every edge of every state meets `ok` -/
def checkEdges (ok : ℕ → Edge → Bool) : Bool := states.zipIdx.all fun s => s.1.all (ok s.2)

/-- **Check rule.** What an evaluation over the edges shows of each of them holds of every transition. -/
theorem next_edges {ok : ℕ → Edge → Bool} (h : checkEdges ok = true) (cs : ℕ) (c : UInt8) :
    next cs c = (error, []) ∨ ∃ e, ok cs e = true ∧ e.on.has c = true ∧ next cs c = (e.target, e.actions) := by
  unfold next
  cases hfind : (states.getD cs []).find? fun e => e.on.has c with
  | none => exact .inl rfl
  | some e =>
    refine .inr ⟨e, ?_, ?_, rfl⟩
    · have hmem := List.mem_of_find?_eq_some hfind
      rw [List.getD_eq_getElem?_getD] at hmem
      cases hes : states[cs]? with
      | none => rw [hes] at hmem; exact absurd hmem (by simp)
      | some es =>
        rw [hes] at hmem
        have hz : (es, cs) ∈ states.zipIdx := List.mk_mem_zipIdx_iff_getElem?.mpr hes
        exact List.all_eq_true.mp (List.all_eq_true.mp h _ hz) e hmem
    · simpa using List.find?_some hfind

/-- **Edge rule.** The first edge that has the symbol is taken. -/
theorem next_eq (es : List Edge) (e : Edge) {es' : List Edge} {cs : ℕ} {c : UInt8}
    (hedges : states.getD cs [] = es ++ e :: es') (hes : ∀ x ∈ es, x.on.has c = false) (he : e.on.has c = true) : next cs c = (e.target, e.actions) := by
  have hnone : es.find? (fun x => x.on.has c) = none := by
    rw [List.find?_eq_none]
    intro x hx
    simp [hes x hx]
  rw [next, hedges, List.find?_append, hnone, List.find?_cons, he]
  rfl

/-- a symbol that some edge has is taken by an edge -/
theorem next_of_mem {cs : ℕ} {c : UInt8} {e : Edge} (hmem : e ∈ states.getD cs []) (he : e.on.has c = true) :
    ∃ x ∈ states.getD cs [], x.on.has c = true ∧ next cs c = (x.target, x.actions) := by
  unfold next
  cases hfind : (states.getD cs []).find? fun e => e.on.has c with
  | none => exact absurd he (List.find?_eq_none.mp hfind e hmem)
  | some x => exact ⟨x, List.mem_of_find?_eq_some hfind, by simpa using List.find?_some hfind, rfl⟩

end Sylar.Http.ResponseMachine
