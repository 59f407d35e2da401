import Mathlib.Data.List.GetD
import Rs485.Impl.Dns
import Rs485.Spec.Names

/-!
# The DNS server

`parse_next_query` accepts the wire format of names, with a type and a class behind
it, and nothing else (`parseNextQuery_iff`): what it accepts encodes a name whose text
has 127 octets at most, which is what `query.name` holds then. It stays within the packet
and the 128 octets of the name. `answers_iff` says which datagrams are answered.
-/

namespace Rs485.Dns

open Rs485.Framework Rs485.Spec.Names

variable {m m' : Mem DnsObj Byte} {fuel ptr size len labels n : Nat} {ls : List Label} {l : Label}
  {e : ParseEnd}

/-- The turn of the loop for one label, with the separator before it if there is a label before it. -/
def labelMem (m : Mem DnsObj Byte) (ptr len : Nat) : Bool → Nat → Mem DnsObj Byte
  | false, n => (m.touch ⟨.payload, ptr⟩).copy ⟨.name, len⟩ ⟨.payload, ptr + 1⟩ n
  | true, n => ((m.touch ⟨.payload, ptr⟩).store ⟨.name, len⟩ dot).copy ⟨.name, len + 1⟩ ⟨.payload, ptr + 1⟩ n

/-- The text that a label adds. -/
def labelText (more : Bool) (l : Label) : List Byte := (if more then [dot] else []) ++ l

theorem length_labelText (more : Bool) (l : Label) :
    (labelText more l).length = (if more then 1 else 0) + l.length := by
  cases more
  · simp [labelText]
  · simp [labelText, Nat.add_comm]

theorem dotted_cons (more : Bool) (l : Label) (ls : List Label) :
    dotted dot more (l :: ls) = labelText more l ++ dotted dot true ls := rfl

/-- The cells of a memory after a label: the packet is as it was, the text is longer by the label. -/
theorem labelMem_data (len : Nat) (more : Bool) (hl : m.Holds ⟨.payload, ptr + 1⟩ l) :
    (labelMem m ptr len more l.length).data .payload = m.data .payload ∧
      (∀ i < len, (labelMem m ptr len more l.length).data .name i = m.data .name i) ∧
      (labelMem m ptr len more l.length).Holds ⟨.name, len⟩ (labelText more l) := by
  have hobj : DnsObj.payload ≠ .name := nofun
  cases more with
  | false =>
    refine ⟨funext fun i => Mem.copy_data_of_ne hobj hobj i, fun i hi => ?_, ?_⟩
    · exact (Mem.copy_data hobj _ i).trans (if_neg fun h => Nat.not_le_of_lt hi h.2.1)
    · exact (Mem.slice_copy hobj).trans hl
  | true =>
    have hsep : ((m.touch ⟨.payload, ptr⟩).store ⟨.name, len⟩ dot).data .payload = m.data .payload :=
      Mem.store_data_obj _ _ hobj
    refine ⟨funext fun i => (Mem.copy_data_of_ne hobj hobj i).trans (congrFun hsep i), fun i hi => ?_, ?_⟩
    · refine (Mem.copy_data hobj _ i).trans ((if_neg fun h => ?_).trans (if_neg fun h => Nat.ne_of_lt hi h.2))
      exact Nat.not_le_of_lt (Nat.lt_succ_of_lt hi) h.2.1
    · rw [labelText, if_pos rfl, Mem.holds_append]
      constructor
      · rw [Mem.holds_cons]
        refine ⟨(Mem.copy_data hobj _ _).trans ((if_neg fun h => ?_).trans (if_pos ⟨rfl, rfl⟩)), Mem.holds_nil⟩
        exact absurd h.2.1 (Nat.not_succ_le_self len)
      · refine (Mem.slice_copy hobj).trans (Eq.trans (Mem.slice_congr fun i _ => ?_) hl)
        exact congrFun hsep _

/-! ## One turn of the loop -/

theorem parseLoop_end (h : m.data .payload ptr = 0) :
    parseLoop (fuel + 1) ptr (size + 1) len labels m = (.ok ⟨ptr + 1, size, len⟩, m.touch ⟨.payload, ptr⟩) := by
  rw [parseLoop, if_neg (Nat.succ_ne_zero size)]
  simp [h]

theorem parseLoop_label (hn : (m.data .payload ptr).toNat = n) (hpos : n ≠ 0) (hlen : len < dnsMaxHostNameLen)
    (hfit : n ≤ size) (htext : len + ((if labels > 0 then 1 else 0) + n) < dnsMaxHostNameLen) :
    parseLoop (fuel + 1) ptr (size + 1) len labels m =
      parseLoop fuel (ptr + 1 + n) (size - n) (len + ((if labels > 0 then 1 else 0) + n)) (labels + 1)
        (labelMem m ptr len (labels > 0) n) := by
  rw [parseLoop, if_neg (Nat.succ_ne_zero size)]
  simp only [hn, hpos, if_false]
  by_cases hmore : labels > 0
  · rw [if_neg fun h => Nat.ne_of_lt hlen h.2]
    simp only [hmore, if_true, decide_true, Nat.add_sub_cancel] at htext ⊢
    rw [if_neg (by omega), if_neg (by omega), Nat.add_assoc, ← Nat.add_assoc len]
    rfl
  · rw [if_neg fun h => hmore h.1]
    simp only [hmore, if_false, decide_false, Nat.add_sub_cancel] at htext ⊢
    rw [if_neg (by omega), if_neg (by omega), Nat.zero_add]
    rfl

theorem parseLoop_refuse (fuel : Nat) (hn : (m.data .payload ptr).toNat = n) (hpos : n ≠ 0)
    (hlen : len < dnsMaxHostNameLen)
    (hno : ¬ (n ≤ size ∧ len + ((if labels > 0 then 1 else 0) + n) < dnsMaxHostNameLen)) :
    ∃ err, (parseLoop (fuel + 1) ptr (size + 1) len labels m).1 = .error err := by
  rw [parseLoop, if_neg (Nat.succ_ne_zero size)]
  simp only [hn, hpos, if_false]
  by_cases hmore : labels > 0
  · rw [if_neg fun h => Nat.ne_of_lt hlen h.2]
    simp only [hmore, if_true, Nat.add_sub_cancel] at hno ⊢
    split
    · exact ⟨_, rfl⟩
    · rw [if_pos (by omega)]
      exact ⟨_, rfl⟩
  · rw [if_neg fun h => hmore h.1]
    simp only [hmore, if_false, Nat.add_sub_cancel] at hno ⊢
    split
    · exact ⟨_, rfl⟩
    · rw [if_pos (by omega)]
      exact ⟨_, rfl⟩

/-! ## The loop -/

/-- The text behind the first `len` octets of the name is `ls`, and nothing else has changed. -/
structure Parsed (m m' : Mem DnsObj Byte) (len : Nat) (more : Bool) (ls : List Label) : Prop where
  payload : m'.data .payload = m.data .payload
  before : ∀ i < len, m'.data .name i = m.data .name i
  text : m'.Holds ⟨.name, len⟩ (dotted dot more ls)

theorem Parsed.cons (ptr : Nat) {more : Bool}
    (h : Parsed (labelMem m ptr len more l.length) m' (len + (labelText more l).length) true ls)
    (hl : m.Holds ⟨.payload, ptr + 1⟩ l) : Parsed m m' len more (l :: ls) := by
  obtain ⟨hpayload, hbefore, htext⟩ := labelMem_data len more hl
  refine ⟨h.payload.trans hpayload, fun i hi => (h.before i (by omega)).trans (hbefore i hi), ?_⟩
  rw [dotted_cons, Mem.holds_append]
  exact ⟨htext.congr fun i _ hi => h.before i hi, h.text⟩

/-- A name on the wire, whose text fits, is parsed. -/
theorem parseLoop_wire (hv : ∀ l ∈ ls, l.Valid) (hw : m.Holds ⟨.payload, ptr⟩ (wire ls))
    (hsize : (wire ls).length ≤ size)
    (hfuel : (wire ls).length ≤ fuel) (htext : len + (dotted dot (labels > 0) ls).length < dnsMaxHostNameLen) :
    ∃ m', parseLoop fuel ptr size len labels m =
        (.ok ⟨ptr + (wire ls).length, size - (wire ls).length, len + (dotted dot (labels > 0) ls).length⟩, m') ∧
      Parsed m m' len (labels > 0) ls := by
  induction ls generalizing fuel ptr size len labels m with
  | nil =>
    obtain ⟨fuel, rfl⟩ := Nat.exists_eq_add_of_lt (show 0 < fuel from hfuel)
    obtain ⟨size, rfl⟩ := Nat.exists_eq_add_of_lt (show 0 < size from hsize)
    have hzero : m.data .payload ptr = 0 := (Mem.holds_cons.mp hw).1
    rw [Nat.zero_add, Nat.zero_add, parseLoop_end hzero]
    exact ⟨_, rfl, rfl, fun _ _ => rfl, Mem.holds_nil⟩
  | cons l ls ih =>
    obtain ⟨hlen, hrest⟩ := Mem.holds_cons.mp hw
    obtain ⟨hl, hrest⟩ := Mem.holds_append.mp hrest
    obtain ⟨hne, hlt⟩ := hv l (.head _)
    rw [length_wire_cons] at hsize hfuel
    have hpos := length_wire_pos ls
    obtain ⟨fuel, rfl⟩ := Nat.exists_eq_add_of_lt (show 0 < fuel by omega)
    obtain ⟨size, rfl⟩ := Nat.exists_eq_add_of_lt (show 0 < size by omega)
    rw [Nat.zero_add, Nat.zero_add] at *
    have hn : (m.data .payload ptr).toNat = l.length := by
      rw [hlen, BitVec.toNat_ofNat]
      exact Nat.mod_eq_of_lt hlt
    rw [dotted_cons, List.length_append, length_labelText] at htext
    simp only [decide_eq_true_eq] at htext
    have hnext : (labelMem m ptr len (labels > 0) l.length).Holds ⟨.payload, ptr + 1 + l.length⟩ (wire ls) :=
      hrest.congr fun i _ _ => congrFun (labelMem_data _ _ hl).1 i
    have hmore : decide (labels + 1 > 0) = true := decide_eq_true (Nat.succ_pos labels)
    have htext' :
        len + ((if labels > 0 then 1 else 0) + l.length) + (dotted dot (labels + 1 > 0) ls).length <
          dnsMaxHostNameLen := by
      rw [hmore]
      omega
    have hsize' : (wire ls).length ≤ size - l.length := by omega
    have hfuel' : (wire ls).length ≤ fuel := by omega
    obtain ⟨m', hparse, hparsed⟩ := ih (fun l' h' => hv l' (.tail _ h')) hnext hsize' hfuel' htext'
    rw [hmore] at hparse hparsed
    refine ⟨m', ?_, Parsed.cons ptr ?_ hl⟩
    · rw [parseLoop_label hn (fun h => hne (List.length_eq_zero_iff.mp h)) (by omega) (by omega) (by omega),
        hparse, length_wire_cons, dotted_cons, List.length_append, length_labelText]
      simp only [decide_eq_true_eq, Except.ok.injEq, ParseEnd.mk.injEq, Prod.mk.injEq, and_true]
      omega
    · rw [length_labelText]
      simpa only [decide_eq_true_eq] using hparsed

/-- What is parsed is a name on the wire, whose text fits. -/
theorem wire_of_parseLoop (h : parseLoop fuel ptr size len labels m = (.ok e, m'))
    (hlen : len < dnsMaxHostNameLen) :
    ∃ ls, (∀ l ∈ ls, l.Valid) ∧ m.Holds ⟨.payload, ptr⟩ (wire ls) ∧ (wire ls).length ≤ size ∧
      len + (dotted dot (labels > 0) ls).length < dnsMaxHostNameLen := by
  induction fuel generalizing ptr size len labels m with
  | zero => cases h
  | succ fuel ih =>
    match size with
    | 0 => cases h
    | size + 1 =>
      by_cases hzero : m.data .payload ptr = 0
      · exact ⟨[], nofun, Mem.holds_cons.mpr ⟨hzero, Mem.holds_nil⟩, Nat.succ_pos size, hlen⟩
      · generalize hn : (m.data .payload ptr).toNat = n
        have hpos : n ≠ 0 := by
          rintro rfl
          exact hzero (BitVec.eq_of_toNat_eq hn)
        by_cases hfit : n ≤ size ∧ len + ((if labels > 0 then 1 else 0) + n) < dnsMaxHostNameLen
        · obtain ⟨hfit, htext⟩ := hfit
          rw [parseLoop_label hn hpos hlen hfit htext] at h
          obtain ⟨ls, hv, hw, hsize, hdotted⟩ := ih h htext
          generalize hl : m.slice ⟨.payload, ptr + 1⟩ n = l
          have hln : l.length = n := by rw [← hl, Mem.length_slice]
          have hholds : m.Holds ⟨.payload, ptr + 1⟩ l := by rw [Mem.Holds, hln, hl]
          have hn256 : n < 256 := hn ▸ BitVec.isLt _
          rw [← hln] at hw
          rw [decide_eq_true (Nat.succ_pos labels)] at hdotted
          refine ⟨l :: ls, ?_, ?_, ?_, ?_⟩
          · rintro l' (_ | ⟨_, h'⟩)
            · exact ⟨List.ne_nil_of_length_pos (by omega), by omega⟩
            · exact hv l' h'
          · refine Mem.holds_cons.mpr ⟨?_, Mem.holds_append.mpr ⟨hholds, ?_⟩⟩
            · rw [hln, ← hn, BitVec.ofNat_toNat, BitVec.setWidth_eq]
            · exact hw.congr fun i _ _ => (congrFun (labelMem_data _ _ hholds).1 i).symm
          · rw [length_wire_cons]
            omega
          · rw [dotted_cons, List.length_append, length_labelText, hln]
            simp only [decide_eq_true_eq]
            omega
        · obtain ⟨err, herr⟩ := parseLoop_refuse fuel hn hpos hlen hfit
          rw [h] at herr
          cases herr

/-- A packet that has a name, a type and a class at `data`, the text of the name having 127 octets at most. -/
structure Encodes (m : Mem DnsObj Byte) (data size : Nat) (ls : List Label) : Prop where
  valid : ∀ l ∈ ls, l.Valid
  holds : m.Holds ⟨.payload, data⟩ (wire ls)
  size : (wire ls).length + 4 ≤ size
  text : (dotted dot false ls).length < dnsMaxHostNameLen

variable {data : Nat}

/-- The query that such a packet holds. -/
def queryOf (m : Mem DnsObj Byte) (data : Nat) (ls : List Label) : Query :=
  ⟨(wire ls).length + 4, getUint16 m (data + (wire ls).length), getUint16 m (data + (wire ls).length + 2)⟩

theorem parseNextQuery_encodes (h : Encodes m data size ls) :
    ∃ m', parseNextQuery data size m = (.ok (queryOf m data ls), m') ∧
      m'.data .payload = m.data .payload ∧ m'.Holds ⟨.name, 0⟩ (dotted dot false ls ++ [0]) := by
  have htext := h.text
  have hsize := h.size
  have htext₀ : 0 + (dotted dot (0 > 0) ls).length < dnsMaxHostNameLen := by simpa using htext
  have hsize₀ : (wire ls).length ≤ size := by omega
  obtain ⟨m', hparse, hparsed⟩ := parseLoop_wire h.valid h.holds hsize₀ hsize₀ htext₀
  have hobj : DnsObj.payload ≠ .name := nofun
  have hdata {p : Ptr DnsObj} {n v} : ((m'.store ⟨.name, n⟩ v).touchN p 4).data .payload = m.data .payload := by
    rw [Mem.touchN_data]
    exact (Mem.store_data_obj _ _ hobj).trans hparsed.payload
  have hword {n v} (off : Nat) : getUint16 (m'.store ⟨.name, n⟩ v) off = getUint16 m off := by
    have hsame := (Mem.store_data_obj m' v hobj (p := ⟨.name, n⟩)).trans hparsed.payload
    rw [getUint16, getUint16, hsame]
  rw [parseNextQuery, hparse]
  simp only
  rw [if_neg (by omega), hword, hword, queryOf]
  refine ⟨_, congrArg (fun n => (Except.ok (Query.mk n _ _), _)) ?_, hdata, ?_⟩
  · omega
  · have htext' := hparsed.text
    simp only [gt_iff_lt, Nat.lt_irrefl, decide_false] at htext'
    rw [Mem.holds_append]
    constructor
    · refine htext'.congr fun i _ hi => ?_
      rw [Mem.touchN_data]
      refine if_neg ?_
      rintro ⟨-, rfl⟩
      simp at hi
    · rw [Mem.holds_cons, Mem.touchN_data]
      refine ⟨if_pos ⟨rfl, ?_⟩, Mem.holds_nil⟩
      simp

theorem encodes_of_parseNextQuery {q : Query} (h : parseNextQuery data size m = (.ok q, m')) :
    ∃ ls, Encodes m data size ls := by
  rw [parseNextQuery] at h
  split at h
  · cases h
  · rename_i ptr size' len m₁ hparse
    split at h
    · cases h
    · rename_i hrest
      obtain ⟨ls, hv, hw, hsize, htext⟩ := wire_of_parseLoop hparse (by decide)
      obtain ⟨m₂, hparse', -⟩ := parseLoop_wire hv hw hsize hsize htext
      obtain ⟨hend, -⟩ := Prod.mk.inj (hparse.symm.trans hparse')
      obtain ⟨-, hsize', -⟩ := ParseEnd.mk.inj (Except.ok.inj hend)
      refine ⟨ls, hv, hw, by omega, ?_⟩
      simpa using htext

/-! ## Memory -/

/-- The accesses stay within the first `n` octets of the packet, and within the name. -/
structure InBounds (m : Mem DnsObj Byte) (n : Nat) : Prop where
  payload : m.Within .payload n
  name : m.Within .name dnsMaxHostNameLen

theorem InBounds.touch (hm : InBounds m n) (h : ptr < n) : InBounds (m.touch ⟨.payload, ptr⟩) n :=
  ⟨Mem.within_touch.mpr ⟨fun _ => h, hm.payload⟩, Mem.within_touch.mpr ⟨nofun, hm.name⟩⟩

theorem InBounds.touchN {k : Nat} (hm : InBounds m n) (h : ptr + k ≤ n) :
    InBounds (m.touchN ⟨.payload, ptr⟩ k) n :=
  ⟨Mem.within_touchN (fun _ => h) hm.payload, Mem.within_touchN nofun hm.name⟩

theorem InBounds.store (hm : InBounds m n) (h : len < dnsMaxHostNameLen) (v : Byte) :
    InBounds (m.store ⟨.name, len⟩ v) n :=
  ⟨Mem.within_store.mpr ⟨nofun, hm.payload⟩, Mem.within_store.mpr ⟨fun _ => h, hm.name⟩⟩

theorem InBounds.copy {k : Nat} (hm : InBounds m n) (h : ptr + k ≤ n) (h' : len + k ≤ dnsMaxHostNameLen) :
    InBounds (m.copy ⟨.name, len⟩ ⟨.payload, ptr⟩ k) n :=
  ⟨Mem.within_copy nofun (fun _ => h) hm.payload, Mem.within_copy (fun _ => h') nofun hm.name⟩

theorem parseLoop_inBounds (fuel labels : Nat) (hm : InBounds m n) (hlen : len < dnsMaxHostNameLen)
    (hn : ptr + size ≤ n) :
    InBounds (parseLoop fuel ptr size len labels m).2 n ∧
      ∀ e, (parseLoop fuel ptr size len labels m).1 = .ok e →
        e.ptr + e.size ≤ n ∧ e.len < dnsMaxHostNameLen := by
  induction fuel generalizing ptr size len labels m with
  | zero => exact ⟨hm, nofun⟩
  | succ fuel ih =>
    rw [parseLoop]
    by_cases hsize : size = 0
    · rw [if_pos hsize]
      exact ⟨hm, nofun⟩
    rw [if_neg hsize]
    have hm := hm.touch (show ptr < n by omega)
    dsimp only
    split
    · refine ⟨hm, fun e he => ?_⟩
      cases he
      exact ⟨by dsimp only; omega, hlen⟩
    split
    · exact ⟨hm, nofun⟩
    by_cases hmore : labels > 0
    · -- a label behind another one
      simp only [hmore, if_true]
      have hm := hm.store hlen dot
      split
      · exact ⟨hm, nofun⟩
      split
      · exact ⟨hm, nofun⟩
      · exact ih _ (hm.copy (by omega) (by omega)) (by omega) (by omega)
    · simp only [hmore, if_false]
      split
      · exact ⟨hm, nofun⟩
      split
      · exact ⟨hm, nofun⟩
      · exact ih _ (hm.copy (by omega) (by omega)) (by omega) (by omega)

theorem parseNextQuery_inBounds (hm : InBounds m n) (hn : data + size ≤ n) :
    InBounds (parseNextQuery data size m).2 n := by
  obtain ⟨hparse, hend⟩ := parseLoop_inBounds size 0 hm (show 0 < dnsMaxHostNameLen by decide) hn
  rw [parseNextQuery]
  split
  · rename_i heq
    rw [heq] at hparse
    exact hparse
  · rename_i ptr size' len m₁ heq
    rw [heq] at hparse hend
    obtain ⟨hptr, hlen⟩ := hend _ rfl
    dsimp only at hptr hlen
    split
    · exact hparse
    · exact (hparse.store hlen 0).touchN (by omega)

/-- `parse_next_query` accepts a packet just if it encodes a name, and then leaves the text of the name, and a
zero behind it, in `query.name`; it stays within the packet and the name. -/
theorem parseNextQuery_iff (hm : InBounds m n) (hn : data + size ≤ n) :
    (∀ q, (parseNextQuery data size m).1 = .ok q ↔ ∃ ls, Encodes m data size ls ∧ q = queryOf m data ls) ∧
      (∀ ls, Encodes m data size ls →
        (parseNextQuery data size m).2.Holds ⟨.name, 0⟩ (dotted dot false ls ++ [0])) ∧
      InBounds (parseNextQuery data size m).2 n := by
  refine ⟨fun q => ⟨fun h => ?_, ?_⟩, fun ls h => ?_, parseNextQuery_inBounds hm hn⟩
  · obtain ⟨ls, hls⟩ :=
      encodes_of_parseNextQuery (show _ = (_, (parseNextQuery data size m).2) from Prod.ext h rfl)
    obtain ⟨m', hparse, -⟩ := parseNextQuery_encodes hls
    rw [hparse] at h
    exact ⟨ls, hls, (Except.ok.inj h).symm⟩
  · rintro ⟨ls, hls, rfl⟩
    obtain ⟨m', hparse, -⟩ := parseNextQuery_encodes hls
    rw [hparse]
  · obtain ⟨m', hparse, -, htext⟩ := parseNextQuery_encodes h
    rw [hparse]
    exact htext

/-- A packet with one label, of one octet. -/
theorem parseNextQuery_iff_label :
    (parseNextQuery 0 7 (received [1, 0x61, 0, 0, 1, 0, 1] fun _ => 0)).1 = .ok ⟨7, 0x0100, 0x0100⟩ := by
  have hm : InBounds (received [1, 0x61, 0, 0, 1, 0, 1] fun _ => 0) 7 :=
    ⟨fun _ h => absurd h List.not_mem_nil, fun _ h => absurd h List.not_mem_nil⟩
  exact ((parseNextQuery_iff hm (by decide)).1 _).mpr
    ⟨[[0x61]], ⟨by simp [Label.Valid], rfl, by decide, by decide⟩, by decide⟩

/-! ## Datagrams -/

section

variable {payload hdr out : List Byte} {name : Nat → Byte} {alloc : Bool} {queryProc : QueryProc}
  {ip : BitVec 32}

theorem received_holds (name : Nat → Byte) (xs ys : List Byte) :
    (received (xs ++ ys) name).Holds ⟨.payload, xs.length⟩ ys := by
  induction ys generalizing xs with
  | nil => exact Mem.holds_nil
  | cons y ys ih =>
    refine Mem.holds_cons.mpr ⟨?_, ?_⟩
    · simp [received]
    · have h := ih (xs ++ [y])
      rwa [List.append_assoc, List.singleton_append, List.length_append] at h

/-- The octets behind a header encode a name just if they are the name on the wire, a type and a
class, and others. -/
theorem encodes_received {tail : List Byte} (hhdr : hdr.length = sizeofDnsHeader) :
    Encodes (received (hdr ++ tail) name) sizeofDnsHeader tail.length ls ↔
      (∀ l ∈ ls, l.Valid) ∧ (dotted dot false ls).length < dnsMaxHostNameLen ∧
        ∃ q rest, tail = wire ls ++ (q ++ rest) ∧ q.length = 4 := by
  have htail := received_holds name hdr tail
  rw [hhdr] at htail
  constructor
  · rintro ⟨hv, hw, hsize, htext⟩
    refine ⟨hv, htext, (tail.drop (wire ls).length).take 4, (tail.drop (wire ls).length).drop 4, ?_, ?_⟩
    · have htake : tail.take (wire ls).length = wire ls := by
        rw [← htail, Mem.take_slice _ _ (Nat.le_of_add_right_le hsize)]
        exact hw
      calc
        tail = tail.take (wire ls).length ++ tail.drop (wire ls).length := (List.take_append_drop ..).symm
        _ = _ := by rw [htake, List.take_append_drop]
    · rw [List.length_take, List.length_drop]
      omega
  · rintro ⟨hv, htext, q, rest, rfl, hq⟩
    refine ⟨hv, (Mem.holds_append.mp htail).1, ?_, htext⟩
    rw [List.length_append, List.length_append]
    omega

theorem cString_eq {t : List Byte} (h : m.Holds ⟨.name, 0⟩ (t ++ [0])) (ht : t.length < n) :
    cString m n = t.takeWhile (· ≠ 0) := by
  have htake := Mem.take_slice m ⟨.name, 0⟩ (show (t ++ [0]).length ≤ n by rw [List.length_append]; exact ht)
  rw [h] at htake
  rw [cString, ← List.take_append_drop (t ++ [0]).length (m.slice _ n), htake, List.append_assoc,
    List.takeWhile_append]
  split
  · rename_i hall
    rw [(List.takeWhile_prefix _).eq_of_length hall]
    simp
  · rfl

/-- The header of the reply: the flag QR set, and one answer. -/
def replyHeader (hdr : List Byte) : List Byte := ((hdr.modify 2 (· ||| 0x80)).set 6 0).set 7 1

theorem reply_append {tail : List Byte} (hhdr : hdr.length = 12) (htail : tail.length = n) :
    reply (hdr ++ (tail ++ rest)) (n + sizeofDnsHeader) ip = replyHeader hdr ++ (tail ++ answer ip) := by
  have htake : (hdr ++ (tail ++ rest)).take (n + sizeofDnsHeader) = hdr ++ tail := by
    rw [← List.append_assoc, List.take_left' (by rw [List.length_append, hhdr, htail, Nat.add_comm])]
  have hmodify : (hdr ++ tail).modify 2 (· ||| 0x80) = hdr.modify 2 (· ||| 0x80) ++ tail := by
    rw [List.modify_eq_set, List.modify_eq_set, List.set_append_left _ _ (by omega),
      List.getElem?_append_left (by omega)]
  rw [reply, htake, hmodify, List.set_append_left _ _ (by rw [List.length_modify]; omega),
    List.set_append_left _ _ (by rw [List.length_set, List.length_modify]; omega), replyHeader,
      List.append_assoc]

/-- A datagram whose header is that of a query with one question. -/
structure Asks (payload : List Byte) : Prop where
  length : sizeofDnsHeader < payload.length
  qr : payload.getD 2 0 &&& 0x80 = 0
  count : payload.getD 4 0 = 0 ∧ payload.getD 5 0 = 1

/-- The memory with which the question is parsed. -/
def atQuestion (payload : List Byte) (name : Nat → Byte) : Mem DnsObj Byte :=
  ((received payload name).touch ⟨.payload, 2⟩).touchN ⟨.payload, 4⟩ 2

theorem udpRecvProc_asks (h : Asks payload) :
    udpRecvProc queryProc alloc payload name =
      respond queryProc alloc payload
        (parseNextQuery sizeofDnsHeader (payload.length - sizeofDnsHeader) (atQuestion payload name)) := by
  have hqr : (received payload name).data .payload 2 &&& 0x80 = 0 := h.qr
  have hcount : (received payload name).data .payload 4 = 0 ∧ (received payload name).data .payload 5 = 1 :=
    h.count
  rw [udpRecvProc, if_neg (Nat.not_le_of_lt h.length), if_neg (not_not.mpr hqr)]
  exact if_neg (not_or.mpr ⟨not_not.mpr hcount.1, not_not.mpr hcount.2⟩)

theorem udpRecvProc_drop (h : ¬ Asks payload) : (udpRecvProc queryProc alloc payload name).1 = none := by
  rw [udpRecvProc]
  split
  · rfl
  rename_i hlen
  split
  · rfl
  rename_i hqr
  dsimp only
  split
  · rfl
  rename_i hcount
  exact absurd ⟨Nat.lt_of_not_le hlen, not_not.mp hqr, not_not.mp fun h => hcount (not_and_or.mp h)⟩ h

theorem encodes_atQuestion {size : Nat} :
    Encodes (atQuestion payload name) data size ls ↔ Encodes (received payload name) data size ls := by
  have hdata : (atQuestion payload name).data .payload = (received payload name).data .payload := by
    rw [atQuestion, Mem.touchN_data, Mem.touch_data]
  constructor
  · exact fun ⟨hv, hw, hsize, htext⟩ => ⟨hv, hw.congr fun i _ _ => (congrFun hdata i).symm, hsize, htext⟩
  · exact fun ⟨hv, hw, hsize, htext⟩ => ⟨hv, hw.congr fun i _ _ => congrFun hdata i, hsize, htext⟩

/-- A reply is sent just to a question whose name `query_proc` knows. -/
theorem respond_eq_some {size : Nat} :
    (respond queryProc alloc payload (parseNextQuery data size m)).1 = some out ↔
    ∃ ls addr, Encodes m data size ls ∧
      queryProc ((dotted dot false ls).takeWhile (· ≠ 0)) = some addr ∧ alloc = true ∧
      out = reply payload ((wire ls).length + 4 + sizeofDnsHeader) addr := by
  have hanswer {ls} (h : Encodes m data size ls) :
      (respond queryProc alloc payload (parseNextQuery data size m)).1 = some out ↔
        ∃ addr, queryProc ((dotted dot false ls).takeWhile (· ≠ 0)) = some addr ∧ alloc = true ∧
          out = reply payload ((wire ls).length + 4 + sizeofDnsHeader) addr := by
    obtain ⟨m', hparse, -, htext⟩ := parseNextQuery_encodes h
    rw [hparse, respond, cString_eq htext h.text]
    cases queryProc ((dotted dot false ls).takeWhile (· ≠ 0)) with
    | none => simp
    | some addr => cases alloc <;> simp [queryOf, eq_comm]
  constructor
  · intro h
    match hparse : parseNextQuery data size m with
    | (.error e, m') =>
      rw [hparse] at h
      cases h
    | (.ok q, m') =>
      obtain ⟨ls, hls⟩ := encodes_of_parseNextQuery hparse
      obtain ⟨addr, hquery, halloc, hout⟩ := (hanswer hls).mp h
      exact ⟨ls, addr, hls, hquery, halloc, hout⟩
  · rintro ⟨ls, addr, hls, h⟩
    exact (hanswer hls).mpr ⟨addr, h⟩

theorem dnsQueryProc_eq_some {t : List Byte} {addr : BitVec 32} : dnsQueryProc ip t = some addr ↔
    t = tinyUsb ∧ ip = addr := by
  rw [dnsQueryProc]
  split <;> simp [*]

theorem asks_append {tail : List Byte} (hhdr : hdr.length = 12) (htail : tail ≠ []) :
    Asks (hdr ++ tail) ↔ hdr.getD 2 0 &&& 0x80 = 0 ∧ hdr.getD 4 0 = 0 ∧ hdr.getD 5 0 = 1 := by
  have hget {i} (hi : i < 12) : (hdr ++ tail).getD i 0 = hdr.getD i 0 := List.getD_append _ _ _ _ (hhdr ▸ hi)
  have hpos := List.length_pos_iff.mpr htail
  constructor
  · intro h
    rw [← hget (by decide), ← hget (by decide), ← hget (by decide)]
    exact ⟨h.qr, h.count⟩
  · rintro ⟨hqr, hcount⟩
    rw [← hget (by decide), ← hget (by decide)] at hcount
    rw [← hget (by decide)] at hqr
    exact ⟨by rw [List.length_append, hhdr]; exact Nat.lt_add_of_pos_right hpos, hqr, hcount⟩

/-- The server answers a datagram just if it is a query with one question, for a name whose text has at most
127 octets and is `tiny.usb` up to a zero; the answer is the header, the question as it was asked, and the address. -/
theorem answers_iff : (udpRecvProc (dnsQueryProc ip) alloc payload name).1 = some out ↔
    ∃ hdr ls q rest, payload = hdr ++ (wire ls ++ (q ++ rest)) ∧ hdr.length = sizeofDnsHeader ∧ q.length = 4 ∧
      (hdr.getD 2 0 &&& 0x80 = 0 ∧ hdr.getD 4 0 = 0 ∧ hdr.getD 5 0 = 1) ∧ (∀ l ∈ ls, l.Valid) ∧
      (dotted dot false ls).length < dnsMaxHostNameLen ∧ (dotted dot false ls).takeWhile (· ≠ 0) = tinyUsb ∧
      alloc = true ∧ out = replyHeader hdr ++ (wire ls ++ (q ++ answer ip)) := by
  have hwire {ls : List Label} {xs : List Byte} : wire ls ++ xs ≠ [] :=
    List.append_ne_nil_of_left_ne_nil (List.ne_nil_of_length_pos (length_wire_pos ls)) xs
  have hreply {hdr ls q rest} (hhdr : hdr.length = sizeofDnsHeader) (hq : q.length = 4) :
      reply (hdr ++ (wire ls ++ (q ++ rest))) ((wire ls).length + 4 + sizeofDnsHeader) ip =
        replyHeader hdr ++ (wire ls ++ (q ++ answer ip)) := by
    rw [← List.append_assoc (wire ls), reply_append hhdr (by rw [List.length_append, hq]), List.append_assoc]
  constructor
  · intro h
    by_cases hasks : Asks payload
    · rw [udpRecvProc_asks hasks, respond_eq_some] at h
      obtain ⟨ls, addr, hls, hquery, halloc, rfl⟩ := h
      obtain ⟨hname, rfl⟩ := dnsQueryProc_eq_some.mp hquery
      obtain ⟨hdr, tail, rfl, hhdr⟩ : ∃ hdr tail, payload = hdr ++ tail ∧ hdr.length = sizeofDnsHeader :=
        ⟨payload.take sizeofDnsHeader, payload.drop sizeofDnsHeader, (List.take_append_drop ..).symm,
          List.length_take_of_le (Nat.le_of_lt hasks.length)⟩
      rw [List.length_append, hhdr, Nat.add_sub_cancel_left, encodes_atQuestion, encodes_received hhdr] at hls
      obtain ⟨hv, htext, q, rest, rfl, hq⟩ := hls
      exact ⟨hdr, ls, q, rest, rfl, hhdr, hq, (asks_append hhdr hwire).mp hasks, hv, htext, hname, halloc,
        hreply hhdr hq⟩
    · rw [udpRecvProc_drop hasks] at h
      cases h
  · rintro ⟨hdr, ls, q, rest, rfl, hhdr, hq, hasks, hv, htext, hname, halloc, rfl⟩
    rw [udpRecvProc_asks ((asks_append hhdr hwire).mpr hasks), respond_eq_some, List.length_append, hhdr,
      Nat.add_sub_cancel_left]
    exact ⟨ls, ip, encodes_atQuestion.mpr ((encodes_received hhdr).mpr ⟨hv, htext, q, rest, rfl, hq⟩),
      dnsQueryProc_eq_some.mpr ⟨hname, rfl⟩, halloc, (hreply hhdr hq).symm⟩

/-- Whatever comes in, the server reads within the datagram and writes within the name. -/
theorem udpRecvProc_inBounds : InBounds (udpRecvProc queryProc alloc payload name).2 payload.length := by
  have hm : InBounds (received payload name) payload.length :=
    ⟨fun _ h => absurd h List.not_mem_nil, fun _ h => absurd h List.not_mem_nil⟩
  rw [udpRecvProc]
  split
  · exact hm
  rename_i hlen
  have hlen : 12 < payload.length := Nat.lt_of_not_le hlen
  have hm := hm.touch (show 2 < payload.length by omega)
  split
  · exact hm
  have hm := hm.touchN (show 4 + 2 ≤ payload.length by omega)
  dsimp only
  split
  · exact hm
  have hparse : InBounds
      (parseNextQuery sizeofDnsHeader (payload.length - sizeofDnsHeader) (atQuestion payload name)).2 _ :=
    parseNextQuery_inBounds hm (Nat.le_of_eq (Nat.add_sub_of_le (Nat.le_of_lt hlen)))
  change InBounds (respond queryProc alloc payload (parseNextQuery _ _ (atQuestion payload name))).2 _
  match hq : parseNextQuery sizeofDnsHeader (payload.length - sizeofDnsHeader) (atQuestion payload name) with
  | (.error e, m') =>
    rw [hq] at hparse
    exact hparse
  | (.ok q, m') =>
    obtain ⟨ls, hls⟩ := encodes_of_parseNextQuery hq
    obtain ⟨m₁, hparse', -⟩ := parseNextQuery_encodes hls
    have hconsumed : q = queryOf _ _ ls := Except.ok.inj (Prod.mk.inj (hq.symm.trans hparse')).1
    have hsize := hls.size
    rw [hq] at hparse
    rw [respond]
    split
    · exact hparse
    · dsimp only
      split
      · refine hparse.touchN ?_
        rw [hconsumed, queryOf]
        simp only [sizeofDnsHeader] at hsize ⊢
        omega
      · exact hparse

end

end Rs485.Dns
