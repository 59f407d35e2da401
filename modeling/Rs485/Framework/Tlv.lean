import Mathlib.Init

/-!
# Options of a type, a length and a value

An option is a type octet, a length octet, and as many octets as this says. `parse`
reads the options that a string of octets starts with, up to the first that does not
fit; `encode` writes options one behind the other, and `parse` reads them back
(`parse_encode`).
-/

namespace Rs485.Framework.Tlv

/-- A type and a value. -/
abbrev Opt := BitVec 8 × List (BitVec 8)

/-- The options of a string. -/
def parse : List (BitVec 8) → List Opt
  | ty :: n :: bs => if n.toNat ≤ bs.length then (ty, bs.take n.toNat) :: parse (bs.drop n.toNat) else []
  | _ => []
termination_by bs => bs.length
decreasing_by
  simp only [List.length_drop, List.length_cons]
  omega

/-- The octets of one option; a value above 255 octets has a length octet of the remainder only. -/
def encodeOpt (ty : BitVec 8) (v : List (BitVec 8)) : List (BitVec 8) := ty :: BitVec.ofNat 8 v.length :: v

/-- The octets of options. -/
def encode : List Opt → List (BitVec 8)
  | [] => []
  | o :: os => encodeOpt o.1 o.2 ++ encode os

@[simp] theorem length_encodeOpt (ty : BitVec 8) (v : List (BitVec 8)) :
    (encodeOpt ty v).length = v.length + 2 := rfl

theorem encode_append (os os' : List Opt) : encode (os ++ os') = encode os ++ encode os' := by
  induction os with
  | nil => rfl
  | cons o os ih => rw [List.cons_append, encode, encode, ih, List.append_assoc]

variable {os : List Opt} {bs : List (BitVec 8)}

/-- The options that were written are read. -/
theorem parse_encode (h : ∀ o ∈ os, o.2.length < 256) (bs : List (BitVec 8)) :
    parse (encode os ++ bs) = os ++ parse bs := by
  induction os with
  | nil => rfl
  | cons o os ih =>
    have hlen : (BitVec.ofNat 8 o.2.length).toNat = o.2.length := by
      rw [BitVec.toNat_ofNat]
      exact Nat.mod_eq_of_lt (h o (.head _))
    rw [encode, encodeOpt, List.cons_append, List.cons_append, List.cons_append, List.cons_append, parse, hlen,
      if_pos (by simp only [List.length_append]; omega), List.append_assoc, List.take_left, List.drop_left,
      ih fun o' ho' => h o' (.tail _ ho')]
    rfl

/-- Behind the options, zeros are empty options of the type 0. -/
theorem mem_parse_zeros {n : Nat} {o : Opt} (h : o ∈ parse (List.replicate n 0)) : o.1 = 0 := by
  induction n using Nat.strongRecOn with
  | ind n ih =>
    match n with
    | 0 => simp [parse] at h
    | 1 => simp [parse] at h
    | n + 2 =>
      have hzero : (0 : BitVec 8).toNat = 0 := rfl
      rw [List.replicate_succ, List.replicate_succ, parse, hzero, if_pos (Nat.zero_le _), List.drop_zero] at h
      rcases List.mem_cons.mp h with rfl | h
      · rfl
      · exact ih n (by omega) h

end Rs485.Framework.Tlv
