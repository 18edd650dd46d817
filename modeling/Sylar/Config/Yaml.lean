/-
YAML documents as trees (the part of yaml-cpp that the configuration uses).

A map node keeps its entries in the order of the document. `nodes` are the nodes of a tree in pre-order, each with the
keys on the way to it; `get` and `asString` read one node.
-/
import Mathlib.Tactic
import Sylar.Http.Message

namespace Sylar

open Sylar.Http

inductive Yaml where
  | null
  | scalar (text : Bytes)
  | seq (items : List Yaml)
  | map (entries : List (Bytes × Yaml))

/-- printing a node to a stream, and `YAML::Load`; none is an exception -/
structure YamlCpp where
  emit : Yaml → Bytes
  load : Bytes → Option Yaml

/-- with `convert<int>`, and the reading of a key as an index -/
structure YamlConvert extends YamlCpp where
  encodeInt : Int32 → Bytes
  decodeInt : Bytes → Option Int32
  decodeIndex : Bytes → Option ℕ

namespace Yaml

mutual

/-- the nodes in pre-order -/
def nodes : Yaml → List (List Bytes × Yaml)
  | map entries => ([], map entries) :: nodesOf entries
  | t => [([], t)]

def nodesOf : List (Bytes × Yaml) → List (List Bytes × Yaml)
  | [] => []
  | (k, t) :: entries => (nodes t).map (fun e => (k :: e.1, e.2)) ++ nodesOf entries

end

/-- `node[key]`; the inner none is a node that is missing -/
def get (key : Bytes) : Yaml → Option (Option Yaml)
  | scalar _ => none
  | map entries => some ((entries.find? (·.1 = key)).map (·.2))
  | _ => some none

/-- `as<std::string>()` -/
def asString : Option Yaml → Option Bytes
  | some (scalar text) => some text
  | _ => none

theorem get_of_mem {entries : List (Bytes × Yaml)} (hnodup : (entries.map (·.1)).Nodup) {key : Bytes} {t : Yaml}
    (h : (key, t) ∈ entries) : (map entries).get key = some (some t) := by
  rw [get]
  induction entries with
  | nil => cases h
  | cons e entries ih =>
    rw [List.map_cons, List.nodup_cons] at hnodup
    rcases List.mem_cons.mp h with rfl | h
    · rw [List.find?_cons_of_pos (by simp), Option.map_some]
    · have hne : e.1 ≠ key := fun he => hnodup.1 (he ▸ List.mem_map_of_mem h)
      rw [List.find?_cons_of_neg (by simpa using hne)]
      exact ih hnodup.2 h

theorem get_of_notMem {entries : List (Bytes × Yaml)} {key : Bytes} (h : key ∉ entries.map (·.1)) :
    (map entries).get key = some none := by
  rw [get, Option.some_inj, Option.map_eq_none_iff, List.find?_eq_none]
  intro e he
  have hne : e.1 ≠ key := fun heq => h (heq ▸ List.mem_map_of_mem he)
  simpa using hne

end Yaml

end Sylar
