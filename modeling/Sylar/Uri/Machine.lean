/-
`Uri::Create` (`uri.rl`, from which the build makes the parser): the grammar of RFC 3986 with actions that cut the
parts out of the text.

The machine is the one the grammar stands for. A region is the set of rules that are still open at a byte, an escape
counts its hexadecimal digits. What begins with the authority can go on as a user or as a host, and behind the first
colon as a user or as a port (`userOrHost`, `userOrPort0`, `userOrPort`), so the actions of both happen; `mark` is one
pointer for all. An address in brackets, or one that has a byte no name has, is kept as read and matched against its
rules when it ends. One byte of them is odd: the rule of an octet says `2 [0-4] digit`, and the bare number is the
byte 2.

Leaving actions happen at the byte behind the part, or at the end of the input. When one transition leaves the
authority and enters the path, an action that is in it twice happens once, the first time (`eraseDups`): behind an
empty port `save_port` has cleared the mark and nothing sets it again, and `save_path` makes a string of a null
pointer.
-/
import Mathlib.Tactic
import Sylar.Core.Scan
import Sylar.Core.Text
import Sylar.Http.ResponseParser

namespace Sylar

open Sylar.Core Sylar.Core.Scan Sylar.Http

structure Uri where
  scheme : Bytes := []
  userinfo : Bytes := []
  host : Bytes := []
  path : Bytes := []
  query : Bytes := []
  fragment : Bytes := []
  port : ℤ := 0
deriving DecidableEq, Repr

namespace Uri

def byte (c : Char) : UInt8 := c.toNat.toUInt8

/-! ## Bytes -/

def alpha (c : UInt8) : Bool := decide (65 ≤ c.toNat ∧ c.toNat ≤ 90 ∨ 97 ≤ c.toNat ∧ c.toNat ≤ 122)

def digit (c : UInt8) : Bool := decide (48 ≤ c.toNat ∧ c.toNat ≤ 57)

def xdigit (c : UInt8) : Bool :=
  digit c || decide (65 ≤ c.toNat ∧ c.toNat ≤ 70 ∨ 97 ≤ c.toNat ∧ c.toNat ≤ 102)

def subDelims (c : UInt8) : Bool := (ascii "!$&'()*+,;=").contains c

def unreserved (c : UInt8) : Bool := alpha c || digit c || (ascii "-._~").contains c

def schemeChar (c : UInt8) : Bool := alpha c || digit c || (ascii "+-.").contains c

/-- a byte of `reg_name` that is not part of an escape -/
def regChar (c : UInt8) : Bool := unreserved c || subDelims c

def userChar (c : UInt8) : Bool := regChar c || c = byte ':'

/-- with `any -- ascii`: the bytes that are negative as `char` -/
def pchar (c : UInt8) : Bool := decide (128 ≤ c.toNat) || regChar c || c = byte ':' || c = byte '@'

/-- `pchar - ":"` -/
def pcharNc (c : UInt8) : Bool := pchar c && c ≠ byte ':'

def queryChar (c : UInt8) : Bool := pchar c || c = byte '/' || c = byte '?'

/-! ## Addresses -/

section
open RegularExpression

def oneOf (cs : Bytes) : RegularExpression UInt8 := (cs.map char).foldr (· + ·) 0

def oneIn (ok : UInt8 → Bool) : RegularExpression UInt8 := oneOf (((List.range 256).map Nat.toUInt8).filter ok)

def lit (s : String) : RegularExpression UInt8 := ((ascii s).map char).foldr (· * ·) 1

def opt (P : RegularExpression UInt8) : RegularExpression UInt8 := 1 + P

def atLeastOne (P : RegularExpression UInt8) : RegularExpression UInt8 := P * P.star

def decOctet : RegularExpression UInt8 :=
  oneIn digit + oneOf (ascii "123456789") * oneIn digit + lit "1" * oneIn digit ^ 2 +
    char 2 * oneOf (ascii "01234") * oneIn digit + lit "25" * oneOf (ascii "012345")

def ipv4address : RegularExpression UInt8 :=
  decOctet * lit "." * decOctet * lit "." * decOctet * lit "." * decOctet

def h16 : RegularExpression UInt8 := oneIn xdigit * opt (oneIn xdigit) * opt (oneIn xdigit) * opt (oneIn xdigit)

def ls32 : RegularExpression UInt8 := h16 * lit ":" * h16 + ipv4address

/-- `(h16 ":"){n}` -/
def groups (n : ℕ) : RegularExpression UInt8 := (h16 * lit ":") ^ n

def ipv6address : RegularExpression UInt8 :=
  groups 6 * ls32 +
  lit "::" * groups 5 * ls32 +
  opt h16 * lit "::" * groups 4 * ls32 +
  opt (groups 1 * h16) * lit "::" * groups 3 * ls32 +
  opt (groups 2 * h16) * lit "::" * groups 2 * ls32 +
  opt (groups 3 * h16) * lit "::" * groups 1 * ls32 +
  opt (groups 4 * h16) * lit "::" * ls32 +
  opt (groups 5 * h16) * lit "::" * h16 +
  opt (groups 6 * h16) * lit "::"

def ipvFuture : RegularExpression UInt8 := lit "v" * atLeastOne (oneIn xdigit) * lit "." * atLeastOne (oneIn userChar)

end

/-! ## The machine -/

inductive Action where
  | marku
  | markh
  | saveScheme
  | savePort
  | saveUserinfo
  | saveHost
  | savePath
  | saveQuery
  | saveFragment
deriving DecidableEq, Repr

/-- where in the text the machine is; a text is what has been read of the part -/
inductive Region where
  | error
  | start
  /-- letters that are a scheme if a colon follows, or the first segment of a relative path -/
  | scheme
  | segment
  /-- behind the colon of the scheme -/
  | hier
  /-- behind a first slash -/
  | slash
  /-- a path that no action saves -/
  | path
  | authority
  | userOrHost (text : Bytes)
  | userOrPort0
  | userOrPort
  | user
  /-- behind the user -/
  | host0
  | regName (text : Bytes)
  | ipv4 (text : Bytes)
  | literal (text : Bytes)
  | literalEnd
  | port0
  | port
  /-- the path behind scheme and authority -/
  | pathAbempty
  | query0
  | query
  | fragment0
  | fragment
deriving DecidableEq, Repr

/-- `scheme` says whether there was one, `pct` how many digits of an escape are missing -/
structure State where
  region : Region
  scheme : Bool
  pct : ℕ
deriving DecidableEq, Repr

abbrev Move := State × List Action

def one (ok : UInt8 → Bool) (st : State) (acts : List Action) (c : UInt8) : Option Move :=
  if ok c then some (st, acts) else none

def on (b : Char) (st : State) (acts : List Action) (c : UInt8) : Option Move := one (· = byte b) st acts c

/-- a byte of the class, or an escape -/
def take (ok : UInt8 → Bool) (st : State) (acts : List Action) (c : UInt8) : Option Move :=
  if c = byte '%' then some ({ st with pct := 2 }, acts) else one ok st acts c

/-- what happens when the authority ends here, if it can -/
def Region.closing : Region → Option (List Action)
  | .authority => some [.markh, .saveHost]
  | .host0 => some [.markh, .saveHost]
  | .userOrHost _ => some [.saveHost]
  | .regName _ => some [.saveHost]
  | .ipv4 text => if ipv4address.rmatch text then some [.saveHost] else none
  | .literalEnd => some [.saveHost]
  | .userOrPort0 => some [.markh, .savePort]
  | .port0 => some [.markh, .savePort]
  | .userOrPort => some [.savePort]
  | .port => some [.savePort]
  | _ => none

/-- what happens when the part read ends here and no path begins, if it can -/
def Region.leaving (scheme : Bool) : Region → Option (List Action)
  | .start => some []
  | .scheme => some []
  | .segment => some []
  | .hier => some []
  | .slash => some []
  | .path => some []
  | .pathAbempty => some [.savePath]
  | .query0 => some [.marku, .saveQuery]
  | .query => some [.saveQuery]
  | .fragment0 => some [.marku, .saveFragment]
  | .fragment => some [.saveFragment]
  | r => r.closing.map fun acts => if scheme then (acts ++ [Action.markh, .savePath]).eraseDups else acts

/-- 1 in the query, 2 in the fragment -/
def Region.stage : Region → ℕ
  | .query0 => 1
  | .query => 1
  | .fragment0 => 2
  | .fragment => 2
  | _ => 0

/-- the transitions within a part, and those of the colons and the `@` -/
def Region.own (scheme : Bool) (c : UInt8) (r : Region) : Option Move :=
  let into (r' : Region) : State := ⟨r', scheme, 0⟩
  match r with
  | .error => none
  | .start => one alpha (into .scheme) [.marku] c <|> on '/' (into .slash) [] c <|> take pcharNc (into .segment) [] c
  | .scheme =>
    one schemeChar (into .scheme) [] c <|> on ':' ⟨.hier, true, 0⟩ [.saveScheme] c <|> on '/' (into .path) [] c <|>
      take pcharNc (into .segment) [] c
  | .segment => on '/' (into .path) [] c <|> take pcharNc (into .segment) [] c
  | .hier => on '/' (into .slash) [] c <|> take pchar (into .path) [] c
  | .slash => on '/' (into .authority) [] c <|> take pchar (into .path) [] c
  | .path => on '/' (into .path) [] c <|> take pchar (into .path) [] c
  | .authority =>
    on '[' (into (.literal [])) [.markh] c <|> one (· = 2) (into (.ipv4 [c])) [.markh] c <|>
      on '@' (into .host0) [.markh, .saveUserinfo] c <|> on ':' (into .userOrPort0) [.markh, .saveHost] c <|>
      take regChar (into (.userOrHost [c])) [.markh] c
  | .userOrHost text =>
    one (· = 2) (into (.ipv4 (text ++ [c]))) [] c <|> on '@' (into .host0) [.saveUserinfo] c <|>
      on ':' (into .userOrPort0) [.saveHost] c <|> take regChar (into (.userOrHost (text ++ [c]))) [] c
  | .userOrPort0 =>
    one digit (into .userOrPort) [.markh] c <|> on '@' (into .host0) [.saveUserinfo] c <|> take userChar (into .user) [] c
  | .userOrPort =>
    one digit (into .userOrPort) [] c <|> on '@' (into .host0) [.saveUserinfo] c <|> take userChar (into .user) [] c
  | .user => on '@' (into .host0) [.saveUserinfo] c <|> take userChar (into .user) [] c
  | .host0 =>
    on '[' (into (.literal [])) [.markh] c <|> one (· = 2) (into (.ipv4 [c])) [.markh] c <|>
      on ':' (into .port0) [.markh, .saveHost] c <|> take regChar (into (.regName [c])) [.markh] c
  | .regName text =>
    one (· = 2) (into (.ipv4 (text ++ [c]))) [] c <|> on ':' (into .port0) [.saveHost] c <|>
      take regChar (into (.regName (text ++ [c]))) [] c
  | .ipv4 text =>
    one (fun c => digit c || c = 2 || c = byte '.') (into (.ipv4 (text ++ [c]))) [] c <|>
      if ipv4address.rmatch text then on ':' (into .port0) [.saveHost] c else none
  | .literal text =>
    if c = byte ']' then (if (ipv6address + ipvFuture).rmatch text then some (into .literalEnd, []) else none)
    else some (into (.literal (text ++ [c])), [])
  | .literalEnd => on ':' (into .port0) [.saveHost] c
  | .port0 => one digit (into .port) [.markh] c
  | .port => one digit (into .port) [] c
  | .pathAbempty => on '/' (into .pathAbempty) [] c <|> take pchar (into .pathAbempty) [] c
  | .query0 => take queryChar (into .query) [.marku] c
  | .query => take queryChar (into .query) [] c
  | .fragment0 => take queryChar (into .fragment) [.marku] c
  | .fragment => take queryChar (into .fragment) [] c

/-- from the authority to the path -/
def Region.toPath (scheme : Bool) (c : UInt8) (r : Region) : Option Move :=
  r.closing.bind fun acts =>
    if scheme then on '/' ⟨.pathAbempty, scheme, 0⟩ (acts ++ [Action.markh]).eraseDups c
    else on '/' ⟨.path, scheme, 0⟩ acts c

def Region.toQuery (scheme : Bool) (c : UInt8) (r : Region) : Option Move :=
  (r.leaving scheme).bind fun acts => if r.stage < 1 then on '?' ⟨.query0, scheme, 0⟩ acts c else none

def Region.toFragment (scheme : Bool) (c : UInt8) (r : Region) : Option Move :=
  (r.leaving scheme).bind fun acts => if r.stage < 2 then on '#' ⟨.fragment0, scheme, 0⟩ acts c else none

def Region.next (scheme : Bool) (c : UInt8) (r : Region) : Option Move :=
  r.own scheme c <|> r.toPath scheme c <|> r.toQuery scheme c <|> r.toFragment scheme c

def State.start : State := ⟨.start, false, 0⟩

def State.error : State := ⟨.error, false, 0⟩

def State.next (st : State) (c : UInt8) : State × List Action :=
  if st.pct = 0 then (st.region.next st.scheme c).getD (.error, [])
  else if xdigit c then ({ st with pct := st.pct - 1 }, [])
  else (.error, [])

def machine : Machine State UInt8 Action := ⟨State.next, State.error⟩

/-! ## The actions -/

/-- `std::string` of a null pointer -/
inductive Fault where
  | nullString
deriving DecidableEq, Repr

structure Data where
  uri : Uri
  mark : Option ℕ
deriving DecidableEq, Repr

/-- `std::string(mark, fpc - mark)` -/
def slice (s : Bytes) (mark p : ℕ) : Bytes := (s.drop mark).take (p - mark)

/-- save the text from the mark on and clear the mark -/
def Data.save (s : Bytes) (p : ℕ) (d : Data) (set : Uri → Bytes → Uri) : Flow Fault Data :=
  match d.mark with
  | some m => .go ⟨set d.uri (slice s m p), none⟩
  | none => .raise .nullString

def act (s : Bytes) (i : Action) (p : ℕ) (d : Data) : Flow Fault Data :=
  match i with
  | .marku => .go { d with mark := some p }
  | .markh => .go { d with mark := some p }
  | .saveScheme => d.save s p fun u x => { u with scheme := x }
  | .savePort =>
    match d.mark with
    | some m => .go ⟨if p ≠ m then { d.uri with port := atoi (s.drop m) } else d.uri, none⟩
    | none => .raise .nullString
  | .saveUserinfo =>
    match d.mark with
    | some m => .go ⟨{ d.uri with userinfo := slice s m p }, none⟩
    | none => .go d
  | .saveHost =>
    match d.mark with
    | some m => .go { d with uri := { d.uri with host := slice s m p } }
    | none => .go d
  | .savePath => d.save s p fun u x => { u with path := x }
  | .saveQuery => d.save s p fun u x => { u with query := x }
  | .saveFragment => d.save s p fun u x => { u with fragment := x }

/-- the actions at the end of the input -/
def atEof (s : Bytes) (p : ℕ) (st : State) (d : Data) : Except Fault (Option Uri) :=
  match (if st.pct = 0 then st.region.leaving st.scheme else none) with
  | none => .ok none
  | some acts =>
    match perform (fun i => act s i p) acts d with
    | .go d' => .ok (some d'.uri)
    | .fbreak d' => .ok (some d'.uri)
    | .raise e => .error e

/-- `none` is `nullptr` -/
def create (s : Bytes) : Except Fault (Option Uri) :=
  match exec machine (act s) s 0 .start ⟨{}, none⟩ with
  | .error e => .error e
  | .ok (p, st, d) => if st = .error then .ok none else atEof s p st d

end Uri

end Sylar
