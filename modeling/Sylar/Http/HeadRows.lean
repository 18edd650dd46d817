/-
The parts of the request machine, by the transitions that leave them.

What a scan was in the middle of is known from the states it can be in: the states of the method, of the target, of a
query, of a fragment, of the version, of a name and of a value are each closed under the transitions without an action,
and the rows of the other transitions say which actions end the part (`Rows`). A check over the tables shows it for the
whole machine. `name_next`, `field_next`, `query_next` and `escape_next` are the bytes of the parts.
-/
import Mathlib.Tactic
import Sylar.Core.Scan
import Sylar.Http.Message
import Sylar.Http.RequestMachine
import Sylar.Http.RequestParser
import Sylar.Http.RequestWalk

namespace Sylar.Http.HeadRows

open Sylar.Core Sylar.Core.Scan Sylar.Http.RequestMachine Sylar.Http.RequestWalk

/-! ## Parts of the machine -/

/-- a row that goes to `T` without an action, or is one of `rows` -/
def rowIn (T : ℕ → Bool) (rows : List (ℕ × List Action)) (e : ℕ × List Action) : Bool :=
  e.1 == error || (e.2.isEmpty && T e.1) || rows.contains e

/-- all transitions of the states `S` -/
def Rows (S T : ℕ → Bool) (rows : List (ℕ × List Action)) : Prop := checkRows S (rowIn T rows) = true

instance (S T : ℕ → Bool) (rows : List (ℕ × List Action)) : Decidable (Rows S T rows) :=
  inferInstanceAs (Decidable (checkRows S (rowIn T rows) = true))

theorem Rows.next {S T : ℕ → Bool} {rows : List (ℕ × List Action)} (h : Rows S T rows) {relaxed : Bool} {s : ℕ} {c : UInt8}
    (hs : S s = true) (herr : (next relaxed s c).1 ≠ error) :
    ((next relaxed s c).2 = [] ∧ T (next relaxed s c).1 = true) ∨ next relaxed s c ∈ rows := by
  have hrow := next_checked h relaxed c hs herr
  simp only [rowIn, Bool.or_eq_true, beq_iff_eq, Bool.and_eq_true, List.isEmpty_iff, List.contains_iff_mem] at hrow
  rcases hrow with (hzero | hstay) | hleave
  · exact absurd hzero herr
  · exact .inl hstay
  · exact .inr hleave

def only (s t : ℕ) : Bool := decide (t = s)

def nowhere (_ : ℕ) : Bool := false

/-- the states of the method -/
def inMethod (s : ℕ) : Bool := decide (s = 2 ∨ 175 ≤ s ∧ s ≤ 193)

/-- those of the target without the query and the fragment -/
def inPath (s : ℕ) : Bool := decide (19 ≤ s ∧ s ≤ 174) && !decide (20 ≤ s ∧ s ≤ 23) && !decide (29 ≤ s ∧ s ≤ 32)

/-- the state behind a scheme and its colon, and those behind it -/
def behindScheme : ℕ := 174

def inHier (s : ℕ) : Bool := inPath s && !decide (s ∈ [19, 24, 25, 173, 174])

/-- the states in which a path may end, and how it ends there -/
def pathEnds : List ℕ := [19, 26, 33, 34, 35, 38, 42, 43, 46, 61, 173]

def pathRows : List (ℕ × List Action) :=
  [(4, [.requestPath, .requestUri]), (20, [.requestPath, .requestUri]), (29, [.requestPath])]

def emptyPathRows : List (ℕ × List Action) := pathRows.map fun e => (e.1, .mark :: e.2)

def inQuery (s : ℕ) : Bool := decide (30 ≤ s ∧ s ≤ 32)

def inFragment (s : ℕ) : Bool := decide (21 ≤ s ∧ s ≤ 23)

def inVersion (s : ℕ) : Bool := decide (5 ≤ s ∧ s ≤ 12)

def inName (s : ℕ) : Bool := decide (s = 14 ∨ s = 18)

/-- those of a message on a socket -/
def inMessage (s : ℕ) : Bool := decide (194 ≤ s ∧ s ≠ firstFinal)

/-- the parts, from the first byte to the last line; a path is looked at with and without the state behind a scheme -/
structure Parts : Prop where
  start : Rows (only RequestMachine.start) nowhere [(2, [.mark]), (194, [.mark]), (198, [.mark])]
  method : Rows inMethod inMethod [(3, [.requestMethod])]
  target : Rows (only 3) nowhere ([19, 24, 33, 173].map (·, [.mark]) ++ emptyPathRows)
  scheme : Rows (only behindScheme) nowhere ([26, 27, 33].map (·, [.mark]) ++ emptyPathRows)
  path : Rows (fun s => inPath s && !only behindScheme s) inPath pathRows
  anyPath : Rows inPath inPath (pathRows ++ ([26, 27, 33].map (·, [.mark]) ++ emptyPathRows))
  /-- behind a scheme there is no second one -/
  hier : Rows inHier inHier pathRows
  openPath : Rows (fun s => inPath s && !only behindScheme s && !decide (s ∈ pathEnds)) inPath []
  queryStart : Rows (only 29) nowhere
    ([30, 31].map (·, [.startQuery]) ++ [4, 20].map (·, [.startQuery, .queryString, .requestUri]))
  query : Rows inQuery inQuery ([4, 20].map (·, [.queryString, .requestUri]))
  fragmentStart : Rows (only 20) nowhere [(21, [.mark]), (22, [.mark]), (4, [.mark, .fragment])]
  fragment : Rows inFragment inFragment [(4, [.fragment])]
  versionStart : Rows (only 4) nowhere [(5, [.mark])]
  version : Rows inVersion inVersion ([13, 17].map (·, [.httpVersion]))
  lineEnd : Rows (only 17) (only 13) []
  line : Rows (only 13) nowhere [(14, [.startField]), (18, [.startField]), (firstFinal, [.startField, .done])]
  name : Rows inName inName [(15, [.writeField]), (firstFinal, [.done])]
  valueStart : Rows (only 15) nowhere
    ([15, 16].map (·, [.startValue]) ++ [13, 17].map (·, [.startValue, .writeValue]))
  value : Rows (only 16) (only 16) ([13, 17].map (·, [.writeValue]))
  /-- of a message on a socket nothing but its states matters -/
  message : checkRows inMessage (fun e => e.1 == error || inMessage e.1) = true

theorem parts : Parts := by
  constructor <;> decide +kernel

/-! ## Bytes -/

/-- a byte of a name: no NUL, no DEL and no separator -/
def nameByte (c : UInt8) : Bool :=
  decide (0 < c.toNat ∧ c.toNat < 127) && !(ascii "()<>@,;:\\\"/[]?={} \t").contains c

/-- a byte of a value -/
def fieldByte (c : UInt8) : Bool := !([0, 10, 13, 127] : Bytes).contains c

def isBlank (c : UInt8) : Bool := ([9, 32] : Bytes).contains c

theorem name_next : ∀ c ∈ bytes, (next false 14 c = (14, []) ↔ nameByte c = true) ∧
    (next false 13 c = (14, [.startField]) ↔ nameByte c = true ∧ c ≠ 10 ∧ c ≠ 13) ∧
    (next false 13 c = (18, [.startField]) ↔ c = 13) ∧ (next false 18 c = (14, []) ↔ nameByte c = true ∧ c ≠ 10) ∧
    (next false 14 c).1 ≠ 18 ∧ (next false 18 c).1 ≠ 18 := by
  decide +kernel

theorem field_next : ∀ c ∈ bytes, (next false 16 c = (16, []) ↔ fieldByte c = true) ∧
    (next false 15 c = (16, [.startValue]) ↔ fieldByte c = true ∧ isBlank c = false) := by
  decide +kernel

/-- a path ends at every separator, also an empty one -/
theorem path_end_next : ∀ e ∈ [((32 : UInt8), 4, [Action.requestUri]), (63, 29, []), (35, 20, [.requestUri])],
    (∀ s ∈ pathEnds, next false s e.1 = (e.2.1, .requestPath :: e.2.2)) ∧
      next false 3 e.1 = (e.2.1, .mark :: .requestPath :: e.2.2) ∧ e.2.1 ≠ error ∧
      (e.2.2 = [] ∨ e.2.2 = [.requestUri]) := by
  decide +kernel

theorem slash_next : next false 3 47 = (33, [.mark]) ∧ next false behindScheme 47 = (33, [.mark]) := by decide +kernel

/-- the bytes of the method are letters -/
theorem dash_error : ∀ relaxed ∈ [false, true], (next relaxed 2 45).1 = error := by decide +kernel

/-- away from the states with a condition, `uri_relaxed` does not matter -/
theorem next_plain {cs : ℕ} (hcs : cs ∉ condStates) (relaxed : Bool) (c : UInt8) : next relaxed cs c = next false cs c := by
  have hwiden : ∀ b, widen b cs c = char c := fun b => (widen_cases b cs c).resolve_right fun h => hcs h.1
  rw [next, next, hwiden, hwiden]

/-- what the bytes of a query and of a fragment are, by the states they lead to -/
theorem query_next : ∀ relaxed ∈ [false, true], ∀ c ∈ bytes,
    (∀ e ∈ [(30, 30, 31, []), (29, 30, 31, [.startQuery]), (21, 21, 22, []), (20, 21, 22, [.mark])],
      (next relaxed e.1 c = (e.2.1, e.2.2.2) → queryChar relaxed c = true) ∧
        (next relaxed e.1 c = (e.2.2.1, e.2.2.2) → c = 37)) ∧
    ∀ e ∈ [(30, 30, 31), (21, 21, 22)], (next relaxed e.1 c).2 = [] → (next relaxed e.1 c).1 ∈ [error, e.2.1, e.2.2] := by
  decide +kernel

theorem escape_next : ∀ relaxed ∈ [false, true], ∀ c ∈ bytes, ∀ e ∈ [(31, 32), (32, 30), (22, 23), (23, 21)],
    (next relaxed e.1 c).1 ≠ error → xdigit c = true ∧ next relaxed e.1 c = (e.2, []) := by
  decide +kernel

end Sylar.Http.HeadRows
