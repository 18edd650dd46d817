/-
The routing table of the HTTP server (`servlet.h`, `servlet.cpp`).

`ServletDispatch` has an exact table and a list of patterns. A creator gives its servlet when it is asked: a
`HoldServletCreator` the one it holds, any other whatever `make` says. The callback overloads wrap the callback in a
`FunctionServlet` and are the servlet overloads from there on. `fnmatch` is a parameter.

The table is determined by the calls made so far: `liveData` and `liveGlob` are the latest addition of a key that no
deletion of it follows, `liveGlobs` all live patterns in the order of their latest addition. `table_spec` says that the
dispatcher holds just these, `routing` what the lookups return.
-/
import Mathlib.Tactic
import Sylar.Http.Message

namespace Sylar.Http

/-- `IServletCreator`: one that holds a servlet, or one that makes servlets -/
inductive Creator (S C : Type) where
  | hold (slt : S)
  | other (c : C)
deriving DecidableEq, Repr

structure ServletDispatch (S C : Type) where
  datas : Bytes → Option (Creator S C)
  globs : List (Bytes × Creator S C)
  default : S

variable {S C : Type}

def Creator.get (make : C → S) : Creator S C → S
  | .hold slt => slt
  | .other c => make c

namespace ServletDispatch

def new (notFound : S) : ServletDispatch S C := ⟨fun _ => none, [], notFound⟩

/-- the loop over `m_globs` that erases the first entry with this pattern -/
def eraseGlob (uri : Bytes) (globs : List (Bytes × Creator S C)) : List (Bytes × Creator S C) :=
  globs.eraseP fun e => e.1 = uri

def addServlet (d : ServletDispatch S C) (uri : Bytes) (slt : S) : ServletDispatch S C :=
  { d with datas := Function.update d.datas uri (some (.hold slt)) }

def addServletCreator (d : ServletDispatch S C) (uri : Bytes) (creator : Creator S C) : ServletDispatch S C :=
  { d with datas := Function.update d.datas uri (some creator) }

def addGlobServletCreator (d : ServletDispatch S C) (uri : Bytes) (creator : Creator S C) : ServletDispatch S C :=
  { d with globs := eraseGlob uri d.globs ++ [(uri, creator)] }

def addGlobServlet (d : ServletDispatch S C) (uri : Bytes) (slt : S) : ServletDispatch S C :=
  { d with globs := eraseGlob uri d.globs ++ [(uri, .hold slt)] }

def delServlet (d : ServletDispatch S C) (uri : Bytes) : ServletDispatch S C :=
  { d with datas := Function.update d.datas uri none }

def delGlobServlet (d : ServletDispatch S C) (uri : Bytes) : ServletDispatch S C :=
  { d with globs := eraseGlob uri d.globs }

def setDefault (d : ServletDispatch S C) (v : S) : ServletDispatch S C := { d with default := v }

/-- `none` is `nullptr` -/
def getServlet (make : C → S) (d : ServletDispatch S C) (uri : Bytes) : Option S := (d.datas uri).map (·.get make)

def getGlobServlet (make : C → S) (d : ServletDispatch S C) (uri : Bytes) : Option S :=
  (d.globs.find? fun e => e.1 = uri).map (·.2.get make)

def getMatchedServlet (make : C → S) (fnmatch : Bytes → Bytes → Bool) (d : ServletDispatch S C) (uri : Bytes) : S :=
  match d.datas uri with
  | some creator => creator.get make
  | none =>
    match d.globs.find? fun e => fnmatch e.1 uri with
    | some e => e.2.get make
    | none => d.default

end ServletDispatch

/-! ## Calls -/

inductive RouteCall (S C : Type) where
  | addServlet (uri : Bytes) (slt : S)
  | addServletCreator (uri : Bytes) (creator : Creator S C)
  | addGlobServlet (uri : Bytes) (slt : S)
  | addGlobServletCreator (uri : Bytes) (creator : Creator S C)
  | delServlet (uri : Bytes)
  | delGlobServlet (uri : Bytes)
  | setDefault (v : S)
deriving DecidableEq, Repr

def ServletDispatch.call (d : ServletDispatch S C) : RouteCall S C → ServletDispatch S C
  | .addServlet uri slt => d.addServlet uri slt
  | .addServletCreator uri creator => d.addServletCreator uri creator
  | .addGlobServlet uri slt => d.addGlobServlet uri slt
  | .addGlobServletCreator uri creator => d.addGlobServletCreator uri creator
  | .delServlet uri => d.delServlet uri
  | .delGlobServlet uri => d.delGlobServlet uri
  | .setDefault v => d.setDefault v

/-- what a call does to the exact entries: the key, and its creator if it is an addition -/
def RouteCall.data : RouteCall S C → Option (Bytes × Option (Creator S C))
  | .addServlet uri slt => some (uri, some (.hold slt))
  | .addServletCreator uri creator => some (uri, some creator)
  | .delServlet uri => some (uri, none)
  | _ => none

/-- what a call does to the patterns -/
def RouteCall.glob : RouteCall S C → Option (Bytes × Option (Creator S C))
  | .addGlobServlet uri slt => some (uri, some (.hold slt))
  | .addGlobServletCreator uri creator => some (uri, some creator)
  | .delGlobServlet uri => some (uri, none)
  | _ => none

def RouteCall.newDefault : RouteCall S C → Option S
  | .setDefault v => some v
  | _ => none

/-! ## What the calls so far say -/

/-- the creator of the latest addition of `key` that is not followed by a deletion of it; `f` says which calls are
about keys of this kind -/
def live (f : RouteCall S C → Option (Bytes × Option (Creator S C))) (calls : List (RouteCall S C)) (key : Bytes) :
    Option (Creator S C) :=
  (((calls.filterMap f).filter fun e => e.1 = key).getLast?).bind (·.2)

def liveData (calls : List (RouteCall S C)) (uri : Bytes) : Option (Creator S C) := live RouteCall.data calls uri

def liveGlob (calls : List (RouteCall S C)) (pattern : Bytes) : Option (Creator S C) :=
  live RouteCall.glob calls pattern

/-- the additions that no later call about the same pattern takes back or replaces, in order -/
def lastAdditions : List (Bytes × Option (Creator S C)) → List (Bytes × Creator S C)
  | [] => []
  | (p, a) :: rest =>
    if rest.any fun e => e.1 = p then lastAdditions rest
    else (a.map fun c => (p, c)).toList ++ lastAdditions rest

def liveGlobs (calls : List (RouteCall S C)) : List (Bytes × Creator S C) :=
  lastAdditions (calls.filterMap RouteCall.glob)

def liveDefault (notFound : S) (calls : List (RouteCall S C)) : S :=
  ((calls.filterMap RouteCall.newDefault).getLast?).getD notFound

/-! ## One more call -/

theorem live_concat (f : RouteCall S C → Option (Bytes × Option (Creator S C))) (calls : List (RouteCall S C))
    (c : RouteCall S C) (key : Bytes) :
    live f (calls ++ [c]) key = match f c with
      | some (k, a) => if k = key then a else live f calls key
      | none => live f calls key := by
  unfold live
  rw [List.filterMap_append, List.filter_append]
  cases hf : f c with
  | none => simp [hf]
  | some e =>
    obtain ⟨k, a⟩ := e
    by_cases hk : k = key
    · simp [hf, hk]
    · simp [hf, hk]

theorem lastAdditions_concat (es : List (Bytes × Option (Creator S C))) (p : Bytes) (a : Option (Creator S C)) :
    lastAdditions (es ++ [(p, a)]) = (lastAdditions es).filter (fun e => e.1 ≠ p) ++ (a.map fun c => (p, c)).toList := by
  induction es with
  | nil => simp [lastAdditions]
  | cons e es ih =>
    obtain ⟨q, b⟩ := e
    simp only [List.cons_append, lastAdditions, List.any_append, List.any_cons, List.any_nil, Bool.or_false]
    by_cases hany : es.any (fun e => e.1 = q) = true
    · simp [hany, ih]
    · by_cases hqp : q = p
      · subst hqp
        cases b <;> simp [hany, ih]
      · cases b <;> simp [hany, hqp, ih, Ne.symm hqp]

/-! ## The table holds what the calls say -/

/-- on a list without two entries for one pattern, erasing the first is erasing all -/
theorem eraseGlob_eq_filter (uri : Bytes) (globs : List (Bytes × Creator S C)) (hnodup : (globs.map (·.1)).Nodup) :
    ServletDispatch.eraseGlob uri globs = globs.filter (fun e => e.1 ≠ uri) := by
  unfold ServletDispatch.eraseGlob
  induction globs with
  | nil => rfl
  | cons e globs ih =>
    rw [List.map_cons, List.nodup_cons] at hnodup
    obtain ⟨hfresh, hrest⟩ := hnodup
    by_cases he : e.1 = uri
    · have hnone : ∀ x ∈ globs, x.1 ≠ uri := by
        intro x hx hxu
        apply hfresh
        rw [he, ← hxu]
        exact List.mem_map_of_mem hx
      have hall : globs.filter (fun x => x.1 ≠ uri) = globs := by
        apply List.filter_eq_self.mpr
        intro x hx
        simpa using hnone x hx
      simp only [he, List.eraseP_cons, decide_true, cond_true, List.filter_cons, ne_eq, not_true_eq_false, decide_false,
        Bool.false_eq_true, if_false]
      exact hall.symm
    · simp only [he, List.eraseP_cons, decide_false, cond_false, List.filter_cons, ne_eq, not_false_eq_true,
        decide_true, if_true]
      rw [ih hrest]

structure Tabled (notFound : S) (calls : List (RouteCall S C)) (d : ServletDispatch S C) : Prop where
  datas : d.datas = liveData calls
  globs : d.globs = liveGlobs calls
  nodup : (d.globs.map (·.1)).Nodup
  default : d.default = liveDefault notFound calls

theorem liveData_concat_of_none {c : RouteCall S C} (hc : c.data = none) (calls : List (RouteCall S C)) :
    liveData (calls ++ [c]) = liveData calls := by
  funext key
  unfold liveData
  rw [live_concat, hc]

theorem liveData_concat_of_some {c : RouteCall S C} {uri : Bytes} {a : Option (Creator S C)}
    (hc : c.data = some (uri, a)) (calls : List (RouteCall S C)) :
    liveData (calls ++ [c]) = Function.update (liveData calls) uri a := by
  funext key
  unfold liveData
  rw [live_concat, hc, Function.update_apply]
  simp only [eq_comm]

theorem liveGlobs_concat_of_none {c : RouteCall S C} (hc : c.glob = none) (calls : List (RouteCall S C)) :
    liveGlobs (calls ++ [c]) = liveGlobs calls := by
  simp [liveGlobs, hc]

theorem liveGlobs_concat_of_some {c : RouteCall S C} {uri : Bytes} {a : Option (Creator S C)}
    (hc : c.glob = some (uri, a)) (calls : List (RouteCall S C)) :
    liveGlobs (calls ++ [c]) =
      (liveGlobs calls).filter (fun e => e.1 ≠ uri) ++ (a.map fun x => (uri, x)).toList := by
  have hmap : (calls ++ [c]).filterMap RouteCall.glob = calls.filterMap RouteCall.glob ++ [(uri, a)] := by
    rw [List.filterMap_append]
    simp [hc]
  unfold liveGlobs
  rw [hmap, lastAdditions_concat]

theorem liveDefault_concat (notFound : S) (calls : List (RouteCall S C)) (c : RouteCall S C) :
    liveDefault notFound (calls ++ [c]) = c.newDefault.getD (liveDefault notFound calls) := by
  unfold liveDefault
  rw [List.filterMap_append]
  cases hc : c.newDefault <;> simp [hc]

section Step

variable {notFound : S} {calls : List (RouteCall S C)} {d : ServletDispatch S C}

/-- a call about an exact key -/
theorem Tabled.data (h : Tabled notFound calls d) {c : RouteCall S C} {uri : Bytes} {a : Option (Creator S C)}
    (hd : c.data = some (uri, a)) (hg : c.glob = none) (hn : c.newDefault = none) :
    Tabled notFound (calls ++ [c]) { d with datas := Function.update d.datas uri a } where
  datas := by rw [liveData_concat_of_some hd, h.datas]
  globs := by rw [liveGlobs_concat_of_none hg]; exact h.globs
  nodup := h.nodup
  default := by rw [liveDefault_concat, hn]; exact h.default

/-- a call about a pattern -/
theorem Tabled.glob (h : Tabled notFound calls d) {c : RouteCall S C} {uri : Bytes} {a : Option (Creator S C)}
    (hd : c.data = none) (hg : c.glob = some (uri, a)) (hn : c.newDefault = none) :
    Tabled notFound (calls ++ [c])
      { d with globs := ServletDispatch.eraseGlob uri d.globs ++ (a.map fun x => (uri, x)).toList } := by
  have herase := eraseGlob_eq_filter uri d.globs h.nodup
  refine ⟨?_, ?_, ?_, ?_⟩
  · rw [liveData_concat_of_none hd]
    exact h.datas
  · rw [liveGlobs_concat_of_some hg, ← h.globs, herase]
  · -- what is left has other patterns than the one appended
    have hleft : ((d.globs.filter fun e => e.1 ≠ uri).map (·.1)).Nodup :=
      h.nodup.sublist (List.filter_sublist.map _)
    rw [herase]
    cases a with
    | none => simpa using hleft
    | some x =>
      rw [List.map_append]
      apply List.nodup_append.mpr
      refine ⟨hleft, by simp, ?_⟩
      intro k hk k' hk'
      obtain ⟨e, he, rfl⟩ := List.mem_map.mp hk
      have hne : e.1 ≠ uri := by simpa using (List.mem_filter.mp he).2
      have hk'' : k' = uri := by simpa using hk'
      rw [hk'']
      exact hne
  · rw [liveDefault_concat, hn]
    exact h.default

theorem Tabled.setDefault (h : Tabled notFound calls d) (v : S) :
    Tabled notFound (calls ++ [.setDefault v]) (d.setDefault v) where
  datas := by rw [liveData_concat_of_none rfl]; exact h.datas
  globs := by rw [liveGlobs_concat_of_none rfl]; exact h.globs
  nodup := h.nodup
  default := by rw [liveDefault_concat]; rfl

theorem Tabled.call (h : Tabled notFound calls d) (c : RouteCall S C) : Tabled notFound (calls ++ [c]) (d.call c) := by
  cases c with
  | addServlet uri slt => exact h.data rfl rfl rfl
  | addServletCreator uri creator => exact h.data rfl rfl rfl
  | addGlobServlet uri slt => exact h.glob (c := .addGlobServlet uri slt) (a := some (.hold slt)) rfl rfl rfl
  | addGlobServletCreator uri creator =>
    exact h.glob (c := .addGlobServletCreator uri creator) (a := some creator) rfl rfl rfl
  | delServlet uri => exact h.data rfl rfl rfl
  | delGlobServlet uri =>
    have hdel := h.glob (c := .delGlobServlet uri) (a := none) rfl rfl rfl
    rw [Option.map_none, Option.toList_none, List.append_nil] at hdel
    exact hdel
  | setDefault v => exact h.setDefault v

end Step

theorem table_spec (notFound : S) (calls : List (RouteCall S C)) :
    Tabled notFound calls (calls.foldl ServletDispatch.call (.new notFound)) := by
  induction calls using List.reverseRecOn with
  | nil => exact ⟨rfl, rfl, List.nodup_nil, rfl⟩
  | append_singleton calls c ih =>
    rw [List.foldl_append]
    exact ih.call c

/-! ## Looking up -/

theorem lastAdditions_find (es : List (Bytes × Option (Creator S C))) (p : Bytes) :
    ((lastAdditions es).find? fun e => e.1 = p).map (·.2) = ((es.filter fun e => e.1 = p).getLast?).bind (·.2) := by
  induction es using List.reverseRecOn with
  | nil => rfl
  | append_singleton es e ih =>
    obtain ⟨q, a⟩ := e
    rw [lastAdditions_concat, List.find?_append, List.filter_append]
    by_cases hq : q = p
    · have hnone : ((lastAdditions es).filter fun e => e.1 ≠ q).find? (fun e => e.1 = p) = none := by
        apply List.find?_eq_none.mpr
        intro e he
        have hne : e.1 ≠ q := by simpa using (List.mem_filter.mp he).2
        rw [← hq]
        simpa using hne
      rw [hnone]
      cases a <;> simp [hq]
    · have hsame : ((lastAdditions es).filter fun e => e.1 ≠ q).find? (fun e => e.1 = p)
          = (lastAdditions es).find? fun e => e.1 = p := by
        rw [List.find?_filter]
        congr 1
        funext e
        by_cases he : e.1 = p
        · simp [he, Ne.symm hq]
        · simp [he]
      have hlast : [(q, a)].filter (fun e => e.1 = p) = [] := by simp [hq]
      rw [hsame, hlast, List.append_nil, ← ih]
      cases a <;> simp [hq]

theorem liveGlobs_find (calls : List (RouteCall S C)) (p : Bytes) :
    ((liveGlobs calls).find? fun e => e.1 = p).map (·.2) = liveGlob calls p :=
  lastAdditions_find _ p

/-- **Routing.** After any calls, the patterns are those of the latest additions not taken back, each once and in the
order of these additions; a lookup by key gives the servlet of the latest addition not followed by a deletion of the
key; and a request goes to the exact entry, else to the first live pattern that matches, else to the default. -/
theorem routing (notFound : S) (calls : List (RouteCall S C)) (make : C → S) (fnmatch : Bytes → Bytes → Bool)
    (uri : Bytes) :
    let d := calls.foldl ServletDispatch.call (.new notFound)
    (d.globs.map (·.1)).Nodup ∧ d.globs = liveGlobs calls ∧
    d.getServlet make uri = (liveData calls uri).map (·.get make) ∧
    d.getGlobServlet make uri = (liveGlob calls uri).map (·.get make) ∧
    d.getMatchedServlet make fnmatch uri =
      match liveData calls uri with
      | some creator => creator.get make
      | none =>
        match (liveGlobs calls).find? fun e => fnmatch e.1 uri with
        | some e => e.2.get make
        | none => liveDefault notFound calls := by
  intro d
  have h : Tabled notFound calls d := table_spec notFound calls
  refine ⟨h.nodup, h.globs, ?_, ?_, ?_⟩
  · unfold ServletDispatch.getServlet
    rw [h.datas]
  · unfold ServletDispatch.getGlobServlet
    rw [h.globs, ← liveGlobs_find, Option.map_map]
    rfl
  · unfold ServletDispatch.getMatchedServlet
    rw [h.datas, h.globs, h.default]

end Sylar.Http
