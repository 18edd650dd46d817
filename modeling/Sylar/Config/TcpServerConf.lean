/-
`TcpServerConf` as a YAML text and back (`tcp_server.h`; `config.h`, the casts of `std::map<std::string, T>`).

A configuration is printed as a map with a key for each field. The arguments are a map themselves and are printed as a
node of that map, but read as the string of a node, which a map does not have: then the string is the empty one, and
so are the arguments.
- `fromText_toText`: all other fields come back, whatever they are.
- `conf_roundtrip_iff`: so a configuration comes back exactly if it has no arguments.
-/
import Mathlib.Tactic
import Sylar.Core.Numerals
import Sylar.Core.OrdSet
import Sylar.Http.Message
import Sylar.Config.Yaml

namespace Sylar.TcpServerConf

open Sylar.Core Sylar.Http

/-! ## The arguments -/

/-- `operator<` of the keys -/
def argLess (a b : Bytes × Bytes) : Bool := a.1.map UInt8.toNat < b.1.map UInt8.toNat

def sameArg (a b : Bytes × Bytes) : Bool := a.1 = b.1

theorem argLess_weak : OrdSet.WeakOrder argLess sameArg := by
  have hinj : Function.Injective (List.map UInt8.toNat) := List.map_injective_iff.mpr fun _ _ => UInt8.toNat_inj.mp
  apply OrdSet.WeakOrder.of_key fun e => e.1.map UInt8.toNat
  · intro a b
    exact decide_eq_true_iff
  · intro a b
    rw [hinj.eq_iff]
    exact decide_eq_true_iff

/-- `std::map<std::string, std::string>` -/
@[ext]
structure Args where
  entries : List (Bytes × Bytes)
  sorted : OrdSet.Sorted argLess entries

namespace Args

def empty : Args := ⟨[], List.Pairwise.nil⟩

/-- `insert(std::make_pair(key, val))` -/
def insert (m : Args) (e : Bytes × Bytes) : Args :=
  ⟨OrdSet.insert argLess e m.entries, OrdSet.sorted_insert argLess_weak e m.sorted⟩

/-- the loop `node[i.first] = YAML::Load(…)`; none is an exception -/
def toNode (y : YamlCpp) (m : Args) : Option Yaml :=
  (m.entries.mapM fun i => (y.load i.2).map fun t => (i.1, t)).map .map

/-- `LexicalCast<std::map<std::string, std::string>, std::string>` -/
def toText (y : YamlCpp) (m : Args) : Option Bytes := (m.toNode y).map y.emit

/-- `LexicalCast<std::string, std::map<std::string, std::string>>` -/
def fromText (y : YamlCpp) (v : Bytes) : Option Args :=
  match y.load v with
  | none => none
  | some (.map entries) => some (entries.foldl (fun vec it => vec.insert (it.1, y.emit it.2)) empty)
  -- the pair of an item of a sequence has no first node
  | some (.seq (_ :: _)) => none
  | some _ => some empty

end Args

end Sylar.TcpServerConf

namespace Sylar

open Sylar.Core Sylar.Http

structure TcpServerConf where
  address : List Bytes := []
  keepalive : Int32 := 0
  timeout : Int32 := 120000
  ssl : Int32 := 0
  id : Bytes := []
  type : Bytes := ascii "http"
  name : Bytes := []
  certFile : Bytes := []
  keyFile : Bytes := []
  acceptWorker : Bytes := []
  ioWorker : Bytes := []
  processWorker : Bytes := []
  args : TcpServerConf.Args := .empty

namespace TcpServerConf

/-- `operator==` -/
def equal (c oth : TcpServerConf) : Bool :=
  c.address = oth.address && c.keepalive = oth.keepalive && c.timeout = oth.timeout && c.name = oth.name &&
    c.ssl = oth.ssl && c.certFile = oth.certFile && c.keyFile = oth.keyFile && c.acceptWorker = oth.acceptWorker &&
    c.ioWorker = oth.ioWorker && c.processWorker = oth.processWorker && c.args.entries = oth.args.entries &&
    c.id = oth.id && c.type = oth.type

/-! ## Printing -/

/-- the statements `node[key] = …`, with the node of the arguments -/
def fields (y : YamlConvert) (c : TcpServerConf) (args : Yaml) : List (Bytes × Yaml) :=
  [(ascii "id", .scalar c.id), (ascii "type", .scalar c.type), (ascii "name", .scalar c.name),
    (ascii "keepalive", .scalar (y.encodeInt c.keepalive)), (ascii "timeout", .scalar (y.encodeInt c.timeout)),
    (ascii "ssl", .scalar (y.encodeInt c.ssl)), (ascii "cert_file", .scalar c.certFile),
    (ascii "key_file", .scalar c.keyFile), (ascii "accept_worker", .scalar c.acceptWorker),
    (ascii "io_worker", .scalar c.ioWorker), (ascii "process_worker", .scalar c.processWorker), (ascii "args", args)]

/-- the loop `node["address"].push_back(i)`: without an address there is no such key -/
def addressField (c : TcpServerConf) : List (Bytes × Yaml) :=
  if c.address = [] then [] else [(ascii "address", .seq (c.address.map .scalar))]

/-- `YAML::Load` of the printed arguments -/
def argsNode (y : YamlCpp) (c : TcpServerConf) : Option Yaml := (c.args.toText y).bind y.load

def toNode (y : YamlConvert) (c : TcpServerConf) : Option Yaml :=
  (argsNode y.toYamlCpp c).map fun args => .map (fields y c args ++ addressField c)

/-- `LexicalCast<TcpServerConf, std::string>` -/
def toText (y : YamlConvert) (c : TcpServerConf) : Option Bytes := (toNode y c).map y.emit

/-! ## Reading -/

/-- `as<std::string>(fallback)` -/
def asStringOr (node : Option Yaml) (fallback : Bytes) : Bytes := (Yaml.asString node).getD fallback

/-- `as<int>(fallback)` -/
def asIntOr (y : YamlConvert) (node : Option Yaml) (fallback : Int32) : Int32 :=
  ((Yaml.asString node).bind y.decodeInt).getD fallback

/-- `node[i]`, for the `i`-th item -/
def atIndex (y : YamlConvert) (i : ℕ) : Yaml → Option Yaml
  | .seq items => items[i]?
  | .map entries => (entries.find? (y.decodeIndex ·.1 = some i)).map (·.2)
  | _ => none

/-- `node.size()` -/
def nodeSize : Yaml → ℕ
  | .seq items => items.length
  | .map entries => entries.length
  | _ => 0

/-- the loop over `node["address"]` -/
def readAddress (y : YamlConvert) : Option Yaml → Option (List Bytes)
  | none => some []
  | some t => (List.range (nodeSize t)).mapM fun i => Yaml.asString (atIndex y i t)

/-- `LexicalCast<std::string, TcpServerConf>` -/
def fromText (y : YamlConvert) (v : Bytes) : Option TcpServerConf := do
  let node ← y.load v
  let conf : TcpServerConf := {}
  let id := asStringOr (← node.get (ascii "id")) conf.id
  let type := asStringOr (← node.get (ascii "type")) conf.type
  let keepalive := asIntOr y (← node.get (ascii "keepalive")) conf.keepalive
  let timeout := asIntOr y (← node.get (ascii "timeout")) conf.timeout
  let name := asStringOr (← node.get (ascii "name")) conf.name
  let ssl := asIntOr y (← node.get (ascii "ssl")) conf.ssl
  let certFile := asStringOr (← node.get (ascii "cert_file")) conf.certFile
  let keyFile := asStringOr (← node.get (ascii "key_file")) conf.keyFile
  let acceptWorker ← Yaml.asString (← node.get (ascii "accept_worker"))
  let ioWorker ← Yaml.asString (← node.get (ascii "io_worker"))
  let processWorker ← Yaml.asString (← node.get (ascii "process_worker"))
  let args ← Args.fromText y.toYamlCpp (asStringOr (← node.get (ascii "args")) [])
  let address ← readAddress y (← node.get (ascii "address"))
  return { address, keepalive, timeout, ssl, id, type, name, certFile, keyFile, acceptWorker, ioWorker, processWorker,
           args }

/-! ## What comes back -/

/-- what is printed for `c` is read as it was: the trees, the numbers and the empty text -/
structure Preserved (y : YamlConvert) (c : TcpServerConf) : Prop where
  args : ∀ t, c.args.toNode y.toYamlCpp = some t → y.load (y.emit t) = some t
  conf : ∀ t, toNode y c = some t → y.load (y.emit t) = some t
  ints : ∀ n ∈ [c.keepalive, c.timeout, c.ssl], y.decodeInt (y.encodeInt n) = some n
  empty : y.load [] = some .null

def RoundTrips (y : YamlConvert) (c : TcpServerConf) : Prop :=
  ∃ conf, (toText y c).bind (fromText y) = some conf ∧ conf.equal c = true

theorem equal_iff (c oth : TcpServerConf) : c.equal oth = true ↔ c = oth := by
  constructor
  · intro h
    simp only [equal, Bool.and_eq_true, decide_eq_true_eq, ← Args.ext_iff] at h
    cases c
    cases oth
    simp_all
  · rintro rfl
    simp [equal]

theorem mapM_of_some {α β : Type} {f : α → Option β} {g : α → β} {l : List α} (h : ∀ a ∈ l, f a = some (g a)) :
    l.mapM f = some (l.map g) := by
  induction l with
  | nil => rfl
  | cons a l ih =>
    rw [List.mapM_cons, h a List.mem_cons_self, ih fun b hb => h b (List.mem_cons_of_mem a hb)]
    rfl

theorem readAddress_seq (y : YamlConvert) (items : List Bytes) :
    readAddress y (some (.seq (items.map .scalar))) = some items := by
  have hitem : ∀ i ∈ List.range items.length,
      Yaml.asString (atIndex y i (.seq (items.map .scalar))) = some (items.getD i []) := by
    intro i hi
    have hlt : i < items.length := List.mem_range.mp hi
    simp [atIndex, Yaml.asString, hlt]
  rw [readAddress, nodeSize, List.length_map, mapM_of_some hitem, Option.some_inj]
  apply List.ext_getElem
  · simp
  · intro i h1 h2
    simp [h2]

/-- every field has a key of its own -/
theorem keys_nodup (y : YamlConvert) (c : TcpServerConf) (args : Yaml) :
    ((fields y c args ++ addressField c).map (·.1)).Nodup := by
  unfold addressField
  split_ifs
  · simp only [fields, List.append_nil, List.map_cons, List.map_nil]
    decide
  · simp only [fields, List.cons_append, List.nil_append, List.map_cons, List.map_nil]
    decide

/-- the address list comes back, also if it is empty and not printed -/
theorem readAddress_printed (y : YamlConvert) (c : TcpServerConf) (args : Yaml) :
    ((Yaml.map (fields y c args ++ addressField c)).get (ascii "address")).bind (readAddress y) = some c.address := by
  by_cases h : c.address = []
  · rw [Yaml.get_of_notMem, Option.bind_some, readAddress, h]
    simp only [addressField, h, if_true, fields, List.append_nil, List.map_cons, List.map_nil]
    decide
  · rw [Yaml.get_of_mem (keys_nodup y c args) (t := .seq (c.address.map .scalar)), Option.bind_some, readAddress_seq]
    rw [addressField, if_neg h]
    exact List.mem_append_right _ List.mem_cons_self

/-- the string of a node that is a map is the empty one, and so is the map that is read -/
theorem args_lost {y : YamlCpp} (hempty : y.load [] = some .null) (entries : List (Bytes × Yaml)) :
    Args.fromText y (asStringOr (some (.map entries)) []) = some .empty := by
  have htext : asStringOr (some (.map entries)) [] = [] := rfl
  rw [htext, Args.fromText, hempty]

theorem bind_of_some {α β : Type} {x : Option α} {a : α} {f : α → Option β} {r : Option β} (hx : x = some a)
    (h : f a = r) : (x >>= f) = r := by
  rw [hx]
  exact h

/-- **All fields but the arguments** come back -/
theorem fromText_toText {y : YamlConvert} {c : TcpServerConf} (h : Preserved y c) {text : Bytes}
    (htext : toText y c = some text) : fromText y text = some { c with args := .empty } := by
  obtain ⟨node, hnode, rfl⟩ := Option.map_eq_some_iff.mp htext
  have hload := h.conf node hnode
  obtain ⟨args, hargs, rfl⟩ := Option.map_eq_some_iff.mp hnode
  -- the arguments are a map
  obtain ⟨printed, hprinted, hread⟩ := Option.bind_eq_some_iff.mp hargs
  obtain ⟨tree, htree, rfl⟩ := Option.map_eq_some_iff.mp hprinted
  rw [h.args tree htree, Option.some_inj] at hread
  subst hread
  obtain ⟨entries, -, rfl⟩ := Option.map_eq_some_iff.mp htree
  have hget : ∀ key t, (key, t) ∈ fields y c (.map entries) →
      (Yaml.map (fields y c (.map entries) ++ addressField c)).get key = some (some t) := by
    intro key t hmem
    exact Yaml.get_of_mem (keys_nodup y c _) (List.mem_append_left _ hmem)
  have hint : ∀ n ∈ [c.keepalive, c.timeout, c.ssl], ∀ fallback,
      asIntOr y (some (.scalar (y.encodeInt n))) fallback = n := by
    intro n hn fallback
    rw [asIntOr, Yaml.asString, Option.bind_some, h.ints n hn, Option.getD_some]
  obtain ⟨address, haddress, hitems⟩ := Option.bind_eq_some_iff.mp (readAddress_printed y c (.map entries))
  refine bind_of_some hload ?_
  refine bind_of_some (hget (ascii "id") (.scalar c.id) (by simp [fields])) ?_
  refine bind_of_some (hget (ascii "type") (.scalar c.type) (by simp [fields])) ?_
  refine bind_of_some (hget (ascii "keepalive") (.scalar (y.encodeInt c.keepalive)) (by simp [fields])) ?_
  refine bind_of_some (hget (ascii "timeout") (.scalar (y.encodeInt c.timeout)) (by simp [fields])) ?_
  refine bind_of_some (hget (ascii "name") (.scalar c.name) (by simp [fields])) ?_
  refine bind_of_some (hget (ascii "ssl") (.scalar (y.encodeInt c.ssl)) (by simp [fields])) ?_
  refine bind_of_some (hget (ascii "cert_file") (.scalar c.certFile) (by simp [fields])) ?_
  refine bind_of_some (hget (ascii "key_file") (.scalar c.keyFile) (by simp [fields])) ?_
  refine bind_of_some (hget (ascii "accept_worker") (.scalar c.acceptWorker) (by simp [fields])) ?_
  refine bind_of_some (a := c.acceptWorker) rfl ?_
  refine bind_of_some (hget (ascii "io_worker") (.scalar c.ioWorker) (by simp [fields])) ?_
  refine bind_of_some (a := c.ioWorker) rfl ?_
  refine bind_of_some (hget (ascii "process_worker") (.scalar c.processWorker) (by simp [fields])) ?_
  refine bind_of_some (a := c.processWorker) rfl ?_
  refine bind_of_some (hget (ascii "args") (.map entries) (by simp [fields])) ?_
  refine bind_of_some (args_lost h.empty entries) ?_
  refine bind_of_some haddress ?_
  refine bind_of_some hitems ?_
  have h1 := hint c.keepalive (by simp)
  have h2 := hint c.timeout (by simp)
  have h3 := hint c.ssl (by simp)
  simp only [h1, h2, h3]
  rfl

/-- **The round trip of a configuration.** For every configuration, with any addresses, numbers and strings: where the
printed texts are read as they were, the configuration that is read equals `c` exactly if `c` has no arguments. -/
theorem conf_roundtrip_iff {y : YamlConvert} {c : TcpServerConf} (h : Preserved y c) :
    RoundTrips y c ↔ c.args.entries = [] := by
  constructor
  · rintro ⟨conf, hconf, hequal⟩
    obtain ⟨text, htext, hread⟩ := Option.bind_eq_some_iff.mp hconf
    rw [fromText_toText h htext, Option.some_inj] at hread
    rw [← (equal_iff conf c).mp hequal, ← hread]
    rfl
  · intro hargs
    have htree : c.args.toNode y.toYamlCpp = some (.map []) := by
      rw [Args.toNode, hargs]
      rfl
    have hnode : argsNode y.toYamlCpp c = some (.map []) := by
      rw [argsNode, Args.toText, htree, Option.map_some, Option.bind_some, h.args _ htree]
    obtain ⟨text, htext⟩ : ∃ text, toText y c = some text := by
      rw [toText, toNode, hnode]
      exact ⟨_, rfl⟩
    refine ⟨_, by rw [htext, Option.bind_some, fromText_toText h htext], ?_⟩
    rw [equal_iff]
    have hempty : c.args = .empty := Args.ext hargs
    rw [← hempty]

/-- yaml-cpp on two documents, the arguments and the configuration, and on plain scalars -/
def onDocuments (args conf : Bytes × Yaml) : YamlConvert where
  emit
    | .map entries => if entries.length < 12 then args.1 else conf.1
    | .scalar text => text
    | _ => []
  load s :=
    if s = [] then some .null
    else if s = args.1 then some args.2
    else if s = conf.1 then some conf.2
    else some (.scalar s)
  encodeInt n := numeral 10 n.toInt.toNat
  decodeInt s := (value 10 s).map Int32.ofNat
  decodeIndex := value 10

/-- a configuration with one address, as a document with the arguments `args` -/
def localDocument (args : Yaml) : Yaml :=
  .map [(ascii "id", .scalar []), (ascii "type", .scalar (ascii "http")), (ascii "name", .scalar []),
    (ascii "keepalive", .scalar (ascii "0")), (ascii "timeout", .scalar (ascii "120000")),
    (ascii "ssl", .scalar (ascii "0")), (ascii "cert_file", .scalar []), (ascii "key_file", .scalar []),
    (ascii "accept_worker", .scalar []), (ascii "io_worker", .scalar []), (ascii "process_worker", .scalar []),
    (ascii "args", args), (ascii "address", .seq [.scalar (ascii "127.0.0.1:80")])]

def localText (args : Bytes) : Bytes :=
  ascii "id: \"\"\n" ++
    (ascii "type: http\nname: \"\"\nkeepalive: 0\ntimeout: 120000\nssl: 0\ncert_file: \"\"\nkey_file: \"\"\n" ++
      ascii "accept_worker: \"\"\nio_worker: \"\"\nprocess_worker: \"\"\nargs:\n  " ++ args ++
      ascii "\naddress:\n  - 127.0.0.1:80")

def localConf (args : Args) : TcpServerConf := { address := [ascii "127.0.0.1:80"], args }

def localYaml (args : Bytes × Yaml) : YamlConvert := onDocuments args (localText args.1, localDocument args.2)

theorem preserved_local {args : Bytes × Yaml} {m : Args} (htext : args.1 ≠ [])
    (hconf : localText args.1 ≠ [] ∧ localText args.1 ≠ args.1)
    (hargs : ∃ entries, args.2 = .map entries ∧ entries.length < 12)
    (htree : m.toNode (localYaml args).toYamlCpp = some args.2) :
    Preserved (localYaml args) (localConf m) ∧
      toText (localYaml args) (localConf m) = some (localText args.1) := by
  have hzero : (localYaml args).encodeInt 0 = ascii "0" := (by decide +kernel : numeral 10 0 = ascii "0")
  have htimeout : (localYaml args).encodeInt 120000 = ascii "120000" :=
    (by decide +kernel : numeral 10 (120000 : Int32).toInt.toNat = ascii "120000")
  have hemit : (localYaml args).emit args.2 = args.1 := by
    obtain ⟨entries, hmap, hlt⟩ := hargs
    rw [hmap]
    exact if_pos hlt
  have hload : (localYaml args).load (args.1) = some args.2 := by
    rw [localYaml, onDocuments]
    dsimp only
    rw [if_neg htext, if_pos rfl]
  have hloadConf : (localYaml args).load (localText args.1) = some (localDocument args.2) := by
    rw [localYaml, onDocuments]
    dsimp only
    rw [if_neg hconf.1, if_neg hconf.2, if_pos rfl]
  have hemitConf : (localYaml args).emit (localDocument args.2) = localText args.1 := rfl
  have hnode : toNode (localYaml args) (localConf m) = some (localDocument args.2) := by
    have hargsNode : argsNode (localYaml args).toYamlCpp (localConf m) = some args.2 := by
      rw [argsNode, Args.toText, show (localConf m).args = m from rfl, htree, Option.map_some, Option.bind_some, hemit,
        hload]
    rw [toNode, hargsNode, Option.map_some, fields, show (localConf m).keepalive = 0 from rfl,
      show (localConf m).timeout = 120000 from rfl, show (localConf m).ssl = 0 from rfl, hzero, htimeout]
    rfl
  refine ⟨⟨?_, ?_, ?_, rfl⟩, by rw [toText, hnode, Option.map_some, hemitConf]⟩
  · intro t ht
    rw [show (localConf m).args = m from rfl, htree, Option.some_inj] at ht
    rw [← ht, hemit, hload]
  · intro t ht
    rw [hnode, Option.some_inj] at ht
    rw [← ht, hemitConf, hloadConf]
  · intro n hn
    have hn : n = 0 ∨ n = 120000 := by
      rcases List.mem_cons.mp hn with rfl | hn
      · exact Or.inl rfl
      rcases List.mem_cons.mp hn with rfl | hn
      · exact Or.inr rfl
      · exact Or.inl (List.mem_singleton.mp hn)
    rcases hn with rfl | rfl
    · rw [hzero]
      exact (by decide +kernel : (value 10 (ascii "0")).map Int32.ofNat = some 0)
    · rw [htimeout]
      exact (by decide +kernel : (value 10 (ascii "120000")).map Int32.ofNat = some 120000)

/-- the text of a configuration without arguments has them as an empty map -/
theorem conf_roundtrip_iff_local : RoundTrips (localYaml (ascii "\x7b\x7d", .map [])) (localConf .empty) := by
  have h := @preserved_local (ascii "\x7b\x7d", .map []) .empty (by decide) (by decide) ⟨[], rfl, by decide⟩ rfl
  exact (conf_roundtrip_iff h.1).mpr rfl

def oneArg : Args := .insert .empty (ascii "a", ascii "1")

def oneArgDocument : Bytes × Yaml := (ascii "a: 1", .map [(ascii "a", .scalar (ascii "1"))])

/-- with the argument `a: 1` the text is read as a configuration without it -/
theorem argument_lost :
    (toText (localYaml oneArgDocument) (localConf oneArg)).bind (fromText (localYaml oneArgDocument)) =
        some (localConf .empty) ∧
      (localConf .empty).equal (localConf oneArg) = false ∧
      ¬RoundTrips (localYaml oneArgDocument) (localConf oneArg) := by
  have hload : (localYaml oneArgDocument).load (ascii "1") = some (.scalar (ascii "1")) := by
    rw [localYaml, onDocuments]
    dsimp only
    rw [if_neg (by decide), if_neg (by decide), if_neg (by decide)]
  have htree : oneArg.toNode (localYaml oneArgDocument).toYamlCpp = some oneArgDocument.2 := by
    have hentries : oneArg.entries = [(ascii "a", ascii "1")] := rfl
    rw [Args.toNode, hentries, List.mapM_cons, hload]
    rfl
  obtain ⟨h, htext⟩ := preserved_local (by decide) (by decide) ⟨_, rfl, by decide⟩ htree
  have hread : (toText (localYaml oneArgDocument) (localConf oneArg)).bind (fromText (localYaml oneArgDocument)) =
      some (localConf .empty) := by
    rw [htext, Option.bind_some, fromText_toText h htext]
    rfl
  refine ⟨hread, rfl, fun hback => ?_⟩
  obtain ⟨conf, hconf, hequal⟩ := hback
  rw [hread, Option.some_inj] at hconf
  rw [← hconf] at hequal
  cases hequal

end TcpServerConf

end Sylar
