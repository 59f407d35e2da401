import Mathlib.Init

/-!
# Leases

A server lends addresses to clients. A client that requests an address first gives
back the one it has, and is then granted the address that it asks for, or nothing.
`holder h a` is who holds the address `a` after the history `h` (latest event
first), and `Exclusive h` says that every grant of `h` was of an address that nobody
held, to a client that held none. So the same address is granted twice only if the
first client has made another request in between (`request_between`), and no client
holds two (`holder_inj`).

There may be a client `null` that no lease can name: what it is granted, it does not
hold.
-/

namespace Rs485.Spec.Leases

variable {Addr Client : Type} [DecidableEq Addr] [DecidableEq Client]

/-- What happens. -/
inductive Event (Addr Client : Type)
  /-- The client `c` asks for an address, and gives back its own. -/
  | request (c : Client)
  /-- The client `c` is granted the address `a`. -/
  | grant (c : Client) (a : Addr)
deriving DecidableEq, Repr

variable (null : Client)

/-- Who holds an address. -/
def holder : List (Event Addr Client) → Addr → Option Client
  | [], _ => none
  | .request c :: h, a => if holder h a = some c then none else holder h a
  | .grant c b :: h, a => if b = a then (if c = null then none else some c) else holder h a

/-- Only free addresses are granted, and only to clients without one. -/
inductive Exclusive : List (Event Addr Client) → Prop
  | nil : Exclusive []
  | request {h : List (Event Addr Client)} (c : Client) : Exclusive h → Exclusive (.request c :: h)
  | grant {h : List (Event Addr Client)} {c : Client} {a : Addr} : Exclusive h → holder null h a = none →
    (∀ b, holder null h b ≠ some c) → Exclusive (.grant c a :: h)

variable {null} {h mid : List (Event Addr Client)} {a b : Addr} {c c' : Client}

theorem holder_request_self (c : Client) (h : List (Event Addr Client)) (a : Addr) :
    holder null (.request c :: h) a ≠ some c := by
  rw [holder]
  split
  · nofun
  · assumption

/-- Nobody else's request frees an address. -/
theorem holder_request_of_ne (hc : holder null h a = some c') (hne : c' ≠ c) :
    holder null (.request c :: h) a = some c' := by
  rw [holder, if_neg, hc]
  rw [hc]
  exact fun e => hne (Option.some.inj e)

theorem holder_ne_null : holder null h a ≠ some null := by
  induction h with
  | nil => nofun
  | cons e h ih =>
    cases e with
    | request c =>
      rw [holder]
      split
      · nofun
      · exact ih
    | grant c b =>
      rw [holder]
      split
      · split
        · nofun
        · rename_i hc
          exact fun e => hc (Option.some.inj e)
      · exact ih

/-- A client holds an address until it makes a request. -/
theorem holder_kept (hex : Exclusive null (mid ++ .grant c a :: h)) (hc : c ≠ null)
    (hmid : .request c ∉ mid) : holder null (mid ++ .grant c a :: h) a = some c := by
  induction mid with
  | nil => rw [List.nil_append, holder, if_pos rfl, if_neg hc]
  | cons e mid ih =>
    simp only [List.mem_cons, not_or] at hmid
    cases hex with
    | request c' hex =>
      refine holder_request_of_ne (ih hex hmid.2) ?_
      rintro rfl
      exact hmid.1 rfl
    | @grant _ c' b hex hfree hnone =>
      have hheld := ih hex hmid.2
      rw [List.cons_append, holder, if_neg]
      · exact hheld
      · rintro rfl
        exact nomatch hheld.symm.trans hfree

theorem Exclusive.suffix (hex : Exclusive null (mid ++ h)) : Exclusive null h := by
  induction mid with
  | nil => exact hex
  | cons e mid ih =>
    cases hex with
    | request _ hex => exact ih hex
    | grant hex _ _ => exact ih hex

/-- Between two grants of an address, the first client has made a request. -/
theorem request_between (hex : Exclusive null (.grant c' a :: mid ++ .grant c a :: h)) (hc : c ≠ null) :
    .request c ∈ mid := by
  cases hex with
  | grant hex hfree _ =>
    refine Decidable.byContradiction fun hmid => ?_
    exact nomatch (holder_kept hex hc hmid).symm.trans hfree

/-- No client holds two addresses. -/
theorem holder_inj (hex : Exclusive null h) (ha : holder null h a = some c) (hb : holder null h b = some c) :
    a = b := by
  induction hex with
  | nil => cases ha
  | request c' _ ih =>
    rw [holder] at ha hb
    split at ha
    · cases ha
    · split at hb
      · cases hb
      · exact ih ha hb
  | @grant h c' d _ _ hnone ih =>
    rw [holder] at ha hb
    by_cases hda : d = a
    · by_cases hdb : d = b
      · exact hda.symm.trans hdb
      · rw [if_pos hda] at ha
        rw [if_neg hdb] at hb
        split at ha
        · cases ha
        · cases ha
          exact absurd hb (hnone b)
    · rw [if_neg hda] at ha
      by_cases hdb : d = b
      · rw [if_pos hdb] at hb
        split at hb
        · cases hb
        · cases hb
          exact absurd ha (hnone a)
      · rw [if_neg hdb] at hb
        exact ih ha hb

end Rs485.Spec.Leases
