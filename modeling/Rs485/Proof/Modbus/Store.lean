import Rs485.Framework.Bits
import Rs485.Framework.Words
import Rs485.Impl.Modbus.Port
import Rs485.Spec.Maps

/-!
# The maps and the bytes of a store

`Store.maps` reads the four maps off the memory; `Store.byte` and `Store.word`
are the bytes and the big-endian words behind a pointer. None of them depends
on the accesses recorded.
-/

namespace Rs485.Modbus

open Rs485.Framework Rs485.Spec

/-- The objects that hold bits of the register store. -/
def Obj.IsMap (o : Obj) : Prop := o = .ucSCoilBuf ∨ o = .ucSDiscInBuf

namespace Store

variable (s : Store)

/-- The maps that the memory holds. -/
def maps : Maps where
  coil := bitAt (s.mem.data .ucSCoilBuf)
  discrete := bitAt (s.mem.data .ucSDiscInBuf)
  input := s.reg.data .usSRegInBuf
  holding := s.reg.data .usSRegHoldBuf

/-- Byte `i` behind `p`. -/
def byte (p : Ptr Obj) (i : Nat) : UCHAR := s.mem.data p.obj (p.off + i)

/-- The big-endian word at byte `i` behind `p`. -/
def word (p : Ptr Obj) (i : Nat) : USHORT := s.byte p i ++ s.byte p (i + 1)

variable {s} {t : Store}

theorem maps_congr (hm : ∀ o : Obj, o.IsMap → t.mem.data o = s.mem.data o)
    (hr : t.reg.data = s.reg.data) : t.maps = s.maps := by
  simp only [maps, hm _ (Or.inl rfl), hm _ (Or.inr rfl), hr]

theorem maps_store {p : Ptr Obj} (hp : ¬ p.obj.IsMap) (v : UCHAR) :
    { s with mem := s.mem.store p v }.maps = s.maps :=
  maps_congr (fun _ ho => Mem.store_data_obj _ _ fun e => hp (e ▸ ho)) rfl

theorem byte_add (p : Ptr Obj) (m i : Nat) : s.byte (p.add m) i = s.byte p (m + i) := by
  simp [byte, Nat.add_assoc]

theorem word_add (p : Ptr Obj) (m i : Nat) : s.word (p.add m) i = s.word p (m + i) := by
  simp [word, byte_add, Nat.add_assoc]

theorem byte_congr {p : Ptr Obj} (h : t.mem.data p.obj = s.mem.data p.obj) (i : Nat) :
    t.byte p i = s.byte p i := by
  rw [byte, byte, h]

theorem word_congr {p : Ptr Obj} {i : Nat} (h : t.byte p i = s.byte p i)
    (h' : t.byte p (i + 1) = s.byte p (i + 1)) : t.word p i = s.word p i := by
  rw [word, word, h, h']

variable (s) in
theorem word_toNat (p : Ptr Obj) (i : Nat) :
    (s.word p i).toNat = 256 * (s.byte p i).toNat + (s.byte p (i + 1)).toNat :=
  append_toNat _ _

/-- The store at reset, with `bs` in the frame buffer. -/
def ofFrame (bs : List UCHAR) : Store :=
  { (Slave.reset 0).store with mem := ⟨fun o i => if o = .ucRTUBuf 0 then bs.getD i 0 else 0, []⟩ }

end Store

@[simp] theorem call_rdWord (p : Ptr Obj) (s : Store) :
    call (rdWord p) s =
      (s.word p 0, { s with mem := (s.mem.touch p).touch (p.add 1) }) := rfl

/-! ## Invariants of the accesses

`Reads I p n` and `Writes I p n`: reading, or writing, one of the `n` cells
from `p` on keeps the invariant `I`. The functions of the stack keep what their
accesses keep.
-/

/-- A read of a cell among the `n` from `p` on keeps `I`. -/
def Reads (I : Store → Prop) (p : Ptr Obj) (n : Nat) : Prop :=
  ∀ i < n, Preserves I (rd (p.add i))

/-- A write of a cell among the `n` from `p` on keeps `I`. -/
def Writes (I : Store → Prop) (p : Ptr Obj) (n : Nat) : Prop :=
  ∀ i < n, ∀ v, Preserves I (wr (p.add i) v)

namespace Reads

variable {I : Store → Prop} {p : Ptr Obj} {m n : Nat}

theorem add (h : Reads I p n) (hm : m ≤ n) : Reads I (p.add m) (n - m) := by
  intro i hi
  have := h (m + i) (by omega)
  rwa [Ptr.add_add]

theorem mono (h : Reads I p n) (hm : m ≤ n) : Reads I p m := fun i hi => h i (by omega)

theorem rdWord (h : Reads I p 2) : Preserves I (rdWord p) := by
  refine Preserves.seq ?_ fun hi => Preserves.seq ?_ fun lo => Preserves.pure _
  · exact h 0 (by omega)
  · exact h 1 (by omega)

end Reads

namespace Writes

variable {I : Store → Prop} {p : Ptr Obj} {m n : Nat}

theorem add (h : Writes I p n) (hm : m ≤ n) : Writes I (p.add m) (n - m) := by
  intro i hi
  have := h (m + i) (by omega)
  rwa [Ptr.add_add]

theorem mono (h : Writes I p n) (hm : m ≤ n) : Writes I p m := fun i hi => h i (by omega)

end Writes

/-! ### The maps -/

theorem Reads.maps (c : Maps) (p : Ptr Obj) (n : Nat) : Reads (fun s => s.maps = c) p n :=
  fun _ _ _ h => h

theorem Writes.maps (c : Maps) {p : Ptr Obj} (hp : ¬ p.obj.IsMap) (n : Nat) :
    Writes (fun s => s.maps = c) p n :=
  fun i _ v _ h => (Store.maps_store (p := p.add i) hp v).trans h

/-! ### The bounds of an object -/

theorem Reads.within {o : Obj} {size : Nat} {p : Ptr Obj} {n : Nat}
    (h : p.obj = o → p.off + n ≤ size) : Reads (fun s => s.mem.Within o size) p n :=
  fun i hi s hs => Mem.within_touch.mpr ⟨fun e => by have := h e; simp; omega, hs⟩

theorem Writes.within {o : Obj} {size : Nat} {p : Ptr Obj} {n : Nat}
    (h : p.obj = o → p.off + n ≤ size) : Writes (fun s => s.mem.Within o size) p n :=
  fun i hi v s hs => Mem.within_store.mpr ⟨fun e => by have := h e; simp; omega, hs⟩

end Rs485.Modbus
