/-
`ByteArray` refines a flat byte vector with a cursor.

`Flat` says what the class is for: the bytes written so far and a cursor inside them. A write overwrites or extends at
the cursor, a read returns the next bytes or throws and changes nothing, the observers look at the bytes from the cursor
on. Blocks, node pointers and capacity do not occur in it.

`Rel` ties an array to the vector it stands for, and every member function keeps it (`call_refines`). By the simulation
rule whole runs agree: same results, same exceptions, same size and position after every call (`refines_flat`). The
vector knows neither the block size nor what fresh memory holds, so no result depends on them.
-/
import Mathlib.Tactic
import Sylar.Core.Splice
import Sylar.Core.Run
import Sylar.ByteArray.Model
import Sylar.ByteArray.Invariant

namespace Sylar.ByteArray

open Sylar.Core

/-! ## The abstract vector -/

structure Flat where
  contents : List UInt8
  pos : ℕ
  pos_le : pos ≤ contents.length

namespace Flat

def empty : Flat := ⟨[], 0, le_rfl⟩

def size (f : Flat) : ℕ := f.contents.length

def readSize (f : Flat) : ℕ := f.size - f.pos

/-- the bytes from the cursor on -/
def rest (f : Flat) : List UInt8 := f.contents.drop f.pos

def write (f : Flat) (buf : List UInt8) : Flat :=
  ⟨splice f.contents f.pos buf, f.pos + buf.length, by rw [splice_length _ _ _ f.pos_le]; exact le_max_right _ _⟩

def seek (f : Flat) (v : ℕ) (h : v ≤ f.size) : Flat := ⟨f.contents, v, h⟩

theorem rest_length (f : Flat) : f.rest.length = f.readSize := by
  rw [rest, List.length_drop, readSize, size]

def call (f : Flat) : Call → Except Err Ret × Flat
  | .write buf _ => (.ok .unit, f.write buf)
  | .read n =>
    if h : n ≤ f.readSize then
      (.ok (.bytes (f.rest.take n)), f.seek (f.pos + n) (by have := f.pos_le; rw [readSize, size] at h; rw [size]; omega))
    else (.error (.outOfRange "not enough len"), f)
  | .setPosition v =>
    if h : v ≤ f.size then (.ok .unit, f.seek v h) else (.error (.outOfRange "set_position out of range"), f)
  | .clear => (.ok .unit, empty)
  | .getWriteBuffers len _ => (.ok (.size len), f)
  | .toString => (.ok (.bytes f.rest), f)
  | .getReadBuffers len => (.ok (.buffers (min len f.readSize) (f.rest.take (min len f.readSize))), f)
  | .getSize => (.ok (.size f.size), f)
  | .getPosition => (.ok (.size f.pos), f)
  | .getReadSize => (.ok (.size f.readSize), f)

/-- reads of at least one byte, seeks inside the contents -/
def Ok (f : Flat) : Call → Prop
  | .read n => 1 ≤ n
  | .setPosition v => v ≤ f.size
  | _ => True

instance (f : Flat) (c : Call) : Decidable (f.Ok c) := by
  cases c <;> unfold Ok <;> infer_instance

end Flat

/-! ## The refinement -/

/-- the array `ba` stands for the vector `f` -/
structure Rel (ba : ByteArray) (f : Flat) : Prop where
  inv : Inv ba
  contents : ba.contents = f.contents
  pos : ba.position = f.pos

namespace Rel

variable {ba : ByteArray} {f : Flat}

theorem size (h : Rel ba f) : ba.size = f.size := by
  rw [← h.inv.contents_length, h.contents, Flat.size]

theorem readSize (h : Rel ba f) : ba.getReadSize = f.readSize := by
  rw [getReadSize, h.size, h.pos, Flat.readSize]

theorem rest (h : Rel ba f) : ba.contents.drop ba.position = f.rest := by
  rw [h.contents, h.pos, Flat.rest]

end Rel

theorem rel_new (base : ℕ) (junk : ℕ → UInt8) (hb : 0 < base) : Rel (new base junk) Flat.empty :=
  ⟨inv_new base junk hb, by simp [contents, new, Flat.empty], rfl⟩

theorem write_rel {ba : ByteArray} {f : Flat} (h : Rel ba f) (buf : List UInt8) (junk : ℕ → UInt8) :
    ∃ ba', write buf junk ba = (.ok (), ba') ∧ Rel ba' (f.write buf) ∧ Frame ba ba' := by
  obtain ⟨ba', h1, h2, h3, h4, h5⟩ := write_spec h.inv buf junk
  refine ⟨ba', h1, ⟨h2, ?_, ?_⟩, h3⟩
  · rw [h5, h.contents, h.pos, Flat.write]
  · rw [h4, h.pos, Flat.write]

theorem read_rel {ba : ByteArray} {f : Flat} (h : Rel ba f) {n : ℕ} (h1 : 1 ≤ n) (hn : n ≤ f.readSize)
    (hp : f.pos + n ≤ f.size) :
    ∃ ba', read n ba = (.ok (f.rest.take n), ba') ∧ Rel ba' (f.seek (f.pos + n) hp) ∧ Frame ba ba' := by
  obtain ⟨ba', h2, h3, h4, h5, h6⟩ := read_spec h.inv h1 (by rw [h.readSize]; exact hn)
  refine ⟨ba', by rw [h2, h.rest], ⟨h3, ?_, ?_⟩, h4⟩
  · rw [h6, h.contents, Flat.seek]
  · rw [h5, h.pos, Flat.seek]

theorem setPosition_rel {ba : ByteArray} {f : Flat} (h : Rel ba f) {v : ℕ} (hv : v ≤ f.size) :
    ∃ ba', setPosition v ba = (.ok (), ba') ∧ Rel ba' (f.seek v hv) ∧ Frame ba ba' := by
  have hsz := h.inv.size_le
  have hv' : v ≤ ba.size := by rw [h.size]; exact hv
  obtain ⟨ba', h1, h2, h3, h4, h5, h6⟩ := setPosition_spec h.inv (hv'.trans hsz)
  refine ⟨ba', h1, ⟨h2, ?_, h4⟩, h3⟩
  rw [contents, h6, h5, max_eq_left hv', ← contents, h.contents, Flat.seek]

/-- **One call.** An array and the vector it stands for answer alike, and still match afterwards. -/
theorem call_refines {ba : ByteArray} {f : Flat} (h : Rel ba f) (c : Call) (hc : f.Ok c) :
    (call c ba).1 = (f.call c).1 ∧ Rel (call c ba).2 (f.call c).2 := by
  cases c with
  | write buf junk =>
    obtain ⟨ba', h1, h2, -⟩ := write_rel h buf junk
    simp only [call, Flat.call]
    rw [bind_ok h1]
    exact ⟨rfl, h2⟩
  | read n =>
    simp only [call, Flat.call]
    split_ifs with hn
    · obtain ⟨ba', h1, h2, -⟩ := read_rel h hc hn _
      rw [bind_ok h1]
      exact ⟨rfl, h2⟩
    · rw [bind_error (read_throws (by rw [h.readSize]; omega))]
      exact ⟨rfl, h⟩
  | setPosition v =>
    obtain ⟨ba', h1, h2, -⟩ := setPosition_rel h hc
    simp only [call, Flat.call, dif_pos (show v ≤ f.size from hc)]
    rw [bind_ok h1]
    exact ⟨rfl, h2⟩
  | clear =>
    obtain ⟨ba', h1, h2, -, h4, h5⟩ := clear_spec h.inv
    simp only [call, Flat.call]
    rw [bind_ok h1]
    exact ⟨rfl, h2, h5, h4⟩
  | getWriteBuffers len junk =>
    obtain ⟨iovs, ba', h1, h2, -, h4, h5, -⟩ := getWriteBuffers_spec h.inv len junk
    simp only [call, Flat.call]
    rw [bind_ok h1]
    exact ⟨rfl, h2, h5.trans h.contents, h4.trans h.pos⟩
  | toString =>
    simp only [call, Flat.call]
    rw [bind_ok (toString_spec h.inv), h.rest]
    exact ⟨rfl, h⟩
  | getReadBuffers len =>
    obtain ⟨iovs, h1, h2⟩ := getReadBuffers_spec h.inv len
    simp only [call, Flat.call]
    rw [bind_ok h1, bind_ok (get_apply ba), h2, h.rest, h.readSize]
    exact ⟨rfl, h⟩
  | getSize =>
    simp only [call, Flat.call]
    rw [bind_ok (get_apply ba), h.size]
    exact ⟨rfl, h⟩
  | getPosition =>
    simp only [call, Flat.call]
    rw [bind_ok (get_apply ba), h.pos]
    exact ⟨rfl, h⟩
  | getReadSize =>
    simp only [call, Flat.call]
    rw [bind_ok (get_apply ba), h.readSize]
    exact ⟨rfl, h⟩

/-! ## Whole runs -/

/-- one call as it is observed: its result, and the size and position after it -/
structure Obs where
  ret : Except Err Ret
  size : ℕ
  position : ℕ

def obsCall (ba : ByteArray) (c : Call) : Obs × ByteArray :=
  let r := call c ba
  (⟨r.1, r.2.size, r.2.position⟩, r.2)

def Flat.obsCall (f : Flat) (c : Call) : Obs × Flat :=
  let r := f.call c
  (⟨r.1, r.2.size, r.2.pos⟩, r.2)

theorem obsCall_refines (ba : ByteArray) (f : Flat) (c : Call) (hc : f.Ok c) (h : Rel ba f) :
    (obsCall ba c).1 = (f.obsCall c).1 ∧ Rel (obsCall ba c).2 (f.obsCall c).2 := by
  obtain ⟨h1, h2⟩ := call_refines h c hc
  refine ⟨?_, h2⟩
  simp only [obsCall, Flat.obsCall, h1, h2.size, h2.pos]

/-- **`ByteArray` refines the flat vector.** Over any run of reads of at least one byte, writes, seeks inside the used
size, `clear`, growth and observers, from a fresh array of any block size: every call returns or throws what the
vector's does, with the same size and position after it, and the final contents are the vector's. In particular the
block size and what fresh memory held never show. -/
theorem refines_flat (base : ℕ) (hb : 1 ≤ base) (junk : ℕ → UInt8) (cs : List Call)
    (hcs : Along Flat.Ok (fun f c => (f.obsCall c).2) Flat.empty cs) :
    (runOut obsCall (new base junk) cs).1 = (runOut Flat.obsCall Flat.empty cs).1 ∧
      (runOut obsCall (new base junk) cs).2.contents = (runOut Flat.obsCall Flat.empty cs).2.contents ∧
      ∀ base' junk', 1 ≤ base' →
        (runOut obsCall (new base' junk') cs).1 = (runOut obsCall (new base junk) cs).1 := by
  have hsim : ∀ b j, 1 ≤ b → (runOut obsCall (new b j) cs).1 = (runOut Flat.obsCall Flat.empty cs).1 ∧
      Rel (runOut obsCall (new b j) cs).2 (runOut Flat.obsCall Flat.empty cs).2 := fun b j hb =>
    runOut_sim (R := Rel) obsCall_refines cs (rel_new b j hb) hcs
  exact ⟨(hsim base junk hb).1, (hsim base junk hb).2.contents, fun base' junk' hb' =>
    (hsim base' junk' hb').1.trans (hsim base junk hb).1.symm⟩

/-- blocks of two bytes: write three, seek back, overwrite across the border, a read that throws, then the rest -/
theorem refines_flat_two :
    let cs : List Call := [.write [1, 2, 3] fun _ => 0, .setPosition 1, .write [7, 8] fun _ => 9, .read 1,
      .setPosition 0, .getReadBuffers 9]
    Along Flat.Ok (fun f c => (f.obsCall c).2) Flat.empty cs ∧
      (runOut obsCall (new 2 fun _ => 5) cs).1.map Obs.ret =
        [.ok .unit, .ok .unit, .ok .unit, .error (.outOfRange "not enough len"), .ok .unit, .ok (.buffers 3 [1, 7, 8])] := by
  intro cs
  have hcs : Along Flat.Ok (fun f c => (f.obsCall c).2) Flat.empty cs := by decide
  refine ⟨hcs, ?_⟩
  rw [(refines_flat 2 (by decide) (fun _ => 5) cs hcs).1]
  rfl

end Sylar.ByteArray
