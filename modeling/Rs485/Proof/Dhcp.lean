import Mathlib.Data.List.GetD
import Rs485.Impl.Dhcp

/-!
# The leases of the DHCP server

Whatever packets come, the table of entries is what the history of requests and
acknowledgements makes of it (`Linked`, `run_linked`), and the history is exclusive:
an address acknowledged to a client is acknowledged again only after another request
of that client (`lease_exclusive`). `replies_iff` says which packets are answered.
-/

namespace Rs485.Dhcp

open Rs485.Framework Rs485.Spec.Leases

abbrev History := List (Event Ip4 Mac)

/-- What a step adds to the history: a request is recorded where the client gives back its entry. -/
def events (payload : List Byte) (s : Server) (reply : Option Reply) : History :=
  let d := receive payload s.dhcpData
  if messageType d = some dhcpRequest ∧ (requestedIp d).isSome then
    (reply.map fun r => Event.grant (chaddr r.data) (getIp r.data dpYiaddr)).toList ++
      [Event.request (chaddr d)]
  else []

/-- The server with its history. A step takes a packet, and whether a buffer for the reply can be had. -/
def server (cfg : Config) (netif : Netif) : Lts (Server × History) (Bool × List Byte) where
  init s := (∀ e ∈ s.1.entries, e.mac = noMac) ∧ (s.1.entries.map Entry.addr).Nodup ∧ s.2 = []
  next s i :=
    let r := udpRecvProc cfg netif i.1 i.2 s.1
    some (r.1, events i.2 s.1 r.2 ++ s.2)

/-! ## One entry of the table -/

variable {α : Type}

/-- The change of the first element that satisfies `p`, where it does nothing to another one. -/
theorem modify_findIdx? {p : α → Bool} {f : α → α} {l : List α}
    (h : l.Pairwise fun x y => p x = true → p y = true → f y = y) :
    (match l.findIdx? p with
      | some i => l.modify i f
      | none => l) = l.map fun x => if p x then f x else x := by
  induction l with
  | nil => rfl
  | cons x l ih =>
    obtain ⟨hx, hl⟩ := List.pairwise_cons.mp h
    have ih := ih hl
    rw [List.findIdx?_cons, List.map_cons]
    by_cases hp : p x = true
    · rw [if_pos hp, if_pos hp]
      change f x :: l = _
      refine congrArg (f x :: ·) ?_
      have hmap : l.map (fun y => if p y then f y else y) = l.map id := by
        refine List.map_congr_left fun y hy => ?_
        split
        · exact hx y hy hp ‹_›
        · rfl
      rw [hmap, List.map_id]
    · rw [if_neg hp, if_neg hp, ← ih]
      cases l.findIdx? p with
      | none => rfl
      | some i => rfl

/-! ## Octets of a packet -/

section

variable {d : Nat → Byte} {off i : Nat} {bs : List Byte}

theorem put_of_lt (h : i < off) : put d off bs i = d i := if_neg fun h' => by omega

theorem put_of_le (h : off + bs.length ≤ i) : put d off bs i = d i := if_neg fun h' => by omega

theorem put_at (h : i < bs.length) : put d off bs (off + i) = bs.getD i 0 := by
  rw [put, if_pos ⟨by omega, by omega⟩, Nat.add_sub_cancel_left]

theorem ipBytes_append (a : Ip4) :
    (a >>> 24).setWidth 8 ++ (a >>> 16).setWidth 8 ++ (a >>> 8).setWidth 8 ++ a.setWidth 8 = a := by
  ext i hi
  simp only [BitVec.getElem_append, BitVec.getElem_setWidth, BitVec.getLsbD_ushiftRight]
  split
  · rw [BitVec.getLsbD_eq_getElem]
  · split
    · rw [BitVec.getLsbD_eq_getElem (by omega)]
      congr 1
      omega
    · split
      · rw [BitVec.getLsbD_eq_getElem (by omega)]
        congr 1
        omega
      · rw [BitVec.getLsbD_eq_getElem (by omega)]
        congr 1
        omega

theorem getIp_put (a : Ip4) : getIp (put d off (ipBytes a)) off = a := by
  have h (k : Nat) (hk : k < 4) : put d off (ipBytes a) (off + k) = (ipBytes a).getD k 0 := put_at hk
  rw [getIp, h 3 (by decide), h 2 (by decide), h 1 (by decide),
    show put d off (ipBytes a) off = _ from h 0 (by decide)]
  exact ipBytes_append a

theorem getIp_congr {d d' : Nat → Byte} (h : ∀ k < 4, d' (off + k) = d (off + k)) :
    getIp d' off = getIp d off := by
  rw [getIp, getIp, h 3 (by decide), h 2 (by decide), h 1 (by decide), show d' off = d off from h 0 (by decide)]

variable {cfg : Config} {netif : Netif} {msgType : Byte} {yiaddr : Ip4} {lease : BitVec 32}

/-- A reply leaves the client's fields as they were. -/
theorem fillReply_client (h : 20 ≤ i) (h' : i < 236) : fillReply cfg netif msgType yiaddr lease d i = d i := by
  have hopt : i < dpOptions := Nat.lt_of_lt_of_le h' (by decide)
  rw [fillReply, put_of_lt hopt, put_of_lt hopt, put_of_lt h', put_of_le h,
    put_of_le (Nat.le_trans (by decide) h),
    put_of_le (Nat.le_trans (by decide) h), put_of_le (Nat.le_trans (by decide) h)]

theorem chaddr_fillReply : chaddr (fillReply cfg netif msgType yiaddr lease d) = chaddr d := by
  refine Vector.ext fun i hi => ?_
  simp only [chaddr, Vector.getElem_ofFn]
  exact fillReply_client (by simp only [dpChaddr]; omega) (by simp only [dpChaddr]; omega)

theorem yiaddr_fillReply : getIp (fillReply cfg netif msgType yiaddr lease d) dpYiaddr = yiaddr := by
  refine Eq.trans (getIp_congr fun k hk => ?_)
    (getIp_put (d := put (put (put d dpOp [2]) dpSecs [0, 0]) dpFlags [0, 0]) yiaddr)
  have hopt : dpYiaddr + k < dpMagic := by simp only [dpYiaddr, dpMagic]; omega
  have hopt' : dpYiaddr + k < dpOptions := Nat.lt_of_lt_of_le hopt (by decide)
  rw [fillReply, put_of_lt hopt', put_of_lt hopt', put_of_lt hopt]

/-- The options area of a reply: what `fill_options` writes, and zeros behind it. -/
theorem options_fillReply {k : Nat} (hk : k < sizeofDpOptions) :
    fillReply cfg netif msgType yiaddr lease d (dpOptions + k) =
      (fillOptions msgType cfg.domain cfg.dns lease netif.ipAddr cfg.router netif.netmask).getD k 0 := by
  rw [fillReply]
  by_cases h : k < (fillOptions msgType cfg.domain cfg.dns lease netif.ipAddr cfg.router netif.netmask).length
  · exact put_at h
  · have hle := Nat.le_of_not_lt h
    rw [put_of_le (Nat.add_le_add_left hle _), put_at (by rwa [List.length_replicate]),
      List.getD_eq_default _ _ hle]
    simp

end

/-! ## The table and the history -/

variable {entries : List Entry} {h : History} {s s' : Server} {m : Mac} {a : Ip4} {e : Entry}

/-- The table says who holds what. -/
structure Linked (entries : List Entry) (h : History) : Prop where
  nodup : (entries.map Entry.addr).Nodup
  holds : ∀ e ∈ entries, holder noMac h e.addr = if e.mac = noMac then none else some e.mac
  pool : ∀ a, holder noMac h a ≠ none → a ∈ entries.map Entry.addr
  exclusive : Exclusive noMac h

theorem Linked.mac_inj (hl : Linked entries h) {e' : Entry} (he : e ∈ entries) (he' : e' ∈ entries)
    (hm : e.mac = e'.mac)
    (hne : e.mac ≠ noMac) : e.addr = e'.addr := by
  have h₁ := hl.holds e he
  have h₂ := hl.holds e' he'
  rw [if_neg hne] at h₁
  rw [← hm, if_neg hne] at h₂
  exact holder_inj hl.exclusive h₁ h₂

/-- A client that makes a request gives back its entry. -/
def release (m : Mac) (e : Entry) : Entry := if e.mac = m then { e with mac := noMac } else e

/-- An address is granted. -/
def assign (a : Ip4) (m : Mac) (e : Entry) : Entry := if e.addr = a then { e with mac := m } else e

@[simp] theorem release_addr (m : Mac) (e : Entry) : (release m e).addr = e.addr := by
  rw [release]
  split <;> rfl

@[simp] theorem assign_addr (a : Ip4) (m : Mac) (e : Entry) : (assign a m e).addr = e.addr := by
  rw [assign]
  split <;> rfl

theorem map_addr {f : Entry → Entry} (hf : ∀ e, (f e).addr = e.addr) (entries : List Entry) :
    (entries.map f).map Entry.addr = entries.map Entry.addr := by
  rw [List.map_map]
  exact List.map_congr_left fun e _ => hf e

theorem Linked.release (hl : Linked entries h) (m : Mac) :
    Linked (entries.map (Dhcp.release m)) (.request m :: h) where
  nodup := by
    rw [map_addr (release_addr m)]
    exact hl.nodup
  exclusive := .request m hl.exclusive
  pool := by
    intro a ha
    rw [map_addr (release_addr m)]
    refine hl.pool a fun hnone => ha ?_
    rw [holder, hnone, if_neg (Option.some_ne_none m).symm]
  holds := by
    intro e' he'
    obtain ⟨e, he, rfl⟩ := List.mem_map.mp he'
    rw [release_addr, holder, hl.holds e he, Dhcp.release]
    by_cases hm : e.mac = m
    · rw [if_pos hm, if_pos rfl]
      by_cases hv : e.mac = noMac
      · rw [if_pos hv, if_neg (Option.some_ne_none m).symm]
      · rw [if_neg hv, if_pos (congrArg some hm)]
    · rw [if_neg hm]
      by_cases hv : e.mac = noMac
      · rw [if_pos hv, if_neg (Option.some_ne_none m).symm]
      · rw [if_neg hv, if_neg fun heq => hm (Option.some.inj heq)]

theorem Linked.assign (hl : Linked entries h) (ha : a ∈ entries.map Entry.addr)
    (hfree : holder noMac h a = none) (hm : ∀ b, holder noMac h b ≠ some m) :
    Linked (entries.map (Dhcp.assign a m)) (.grant m a :: h) where
  nodup := by
    rw [map_addr (assign_addr a m)]
    exact hl.nodup
  exclusive := .grant hl.exclusive hfree hm
  pool := by
    intro b hb
    rw [map_addr (assign_addr a m)]
    rw [holder] at hb
    split at hb
    · rename_i hab
      exact hab ▸ ha
    · exact hl.pool b hb
  holds := by
    intro e' he'
    obtain ⟨e, he, rfl⟩ := List.mem_map.mp he'
    rw [assign_addr, holder, Dhcp.assign]
    by_cases ha : e.addr = a
    · rw [if_pos ha.symm, if_pos ha]
    · rw [if_neg (Ne.symm ha), if_neg ha]
      exact hl.holds e he

/-- The entry of a client is freed. -/
theorem free_eq (hl : Linked entries h) (m : Mac) :
    freeClient entries m = entries.map (release m) := by
  refine (modify_findIdx? (f := fun e : Entry => { e with mac := noMac }) ?_).trans
    (List.map_congr_left fun e _ => ?_)
  · refine (List.pairwise_map.mp hl.nodup).imp_of_mem fun {e e'} he he' hne h₁ h₂ => ?_
    have h₁ := of_decide_eq_true h₁
    have h₂ := of_decide_eq_true h₂
    -- there are two such entries only if they are vacant
    by_cases hm : m = noMac
    · rw [← hm, ← h₂]
    · exact absurd (hl.mac_inj he he' (h₁.trans h₂.symm) (h₁ ▸ hm)) hne
  · simp [release]

/-- The entry of an address is granted. -/
theorem assign_eq (hl : Linked entries h) {i : Nat} (hi : entryByIp entries a = some i) (m : Mac) :
    setMac entries i m = entries.map (assign a m) := by
  have hone : entries.Pairwise fun e e' => decide (e.addr = a) = true → decide (e'.addr = a) = true →
      { e' with mac := m } = e' :=
    (List.pairwise_map.mp hl.nodup).imp fun hne h₁ h₂ =>
      absurd ((of_decide_eq_true h₁).trans (of_decide_eq_true h₂).symm) hne
  have h := modify_findIdx? (f := fun e : Entry => { e with mac := m }) hone
  rw [show entries.findIdx? _ = some i from hi] at h
  refine h.trans (List.map_congr_left fun e _ => ?_)
  simp [assign]

theorem findIdx?_some {p : α → Bool} {l : List α} {i : Nat} (hi : l.findIdx? p = some i) :
    ∃ x, l[i]? = some x ∧ x ∈ l ∧ p x = true := by
  obtain ⟨hlt, hp, -⟩ := List.findIdx?_eq_some_iff_getElem.mp hi
  exact ⟨l[i], List.getElem?_eq_getElem hlt, List.getElem_mem hlt, hp⟩

variable {cfg : Config} {netif : Netif} {alloc : Bool} {payload : List Byte}

/-- `case DHCP_REQUEST`: the client gives back its entry, and is granted the address if nobody holds
it then. -/
theorem request_cases (cfg : Config) (netif : Netif) (alloc : Bool) (hl : Linked s.entries h)
    (ha : requestedIp s.dhcpData = some a) :
    let m := chaddr s.dhcpData
    let free := a ∈ s.entries.map Entry.addr ∧ holder noMac (.request m :: h) a = none
    (alloc = true ∧ free ∧ ∃ e ∈ s.entries, e.addr = a ∧
      let d := fillReply cfg netif dhcpAck a e.lease s.dhcpData
      request cfg netif alloc s =
        (⟨(s.entries.map (release m)).map (assign a m), d⟩, some ⟨d, getDhcpDestination netif d a false⟩)) ∨
    (¬ (alloc = true ∧ free) ∧ (request cfg netif alloc s).2 = none ∧
      (request cfg netif alloc s).1.entries = s.entries.map (release m)) := by
  intro m free
  have hl' : Linked (s.entries.map (release m)) (.request m :: h) := hl.release m
  have hfreed : freeClient s.entries (chaddr s.dhcpData) = s.entries.map (release m) := free_eq hl m
  have hpool : a ∈ s.entries.map Entry.addr ↔ a ∈ (s.entries.map (release m)).map Entry.addr := by
    rw [map_addr (release_addr m)]
  cases hi : entryByIp (s.entries.map (release m)) a with
  | none =>
    have hout : ¬ free := by
      rintro ⟨hmem, -⟩
      obtain ⟨e, he, rfl⟩ := List.mem_map.mp (hpool.mp hmem)
      exact absurd (List.findIdx?_eq_none_iff.mp hi e he) (by simp)
    refine Or.inr ⟨fun h => hout h.2, ?_⟩
    rw [request, ha]
    simp only [hfreed, hi, and_self]
  | some i =>
    obtain ⟨e', hget, he', haddr⟩ := findIdx?_some hi
    have haddr : e'.addr = a := of_decide_eq_true haddr
    have hholds := hl'.holds e' he'
    rw [haddr] at hholds
    by_cases hv : e'.mac = noMac
    · rw [if_pos hv] at hholds
      have hfree : free := ⟨hpool.mpr (List.mem_map.mpr ⟨e', he', haddr⟩), hholds⟩
      obtain ⟨e, he, rfl⟩ := List.mem_map.mp he'
      cases halloc : alloc with
      | false =>
        refine Or.inr ⟨nofun, ?_⟩
        rw [request, ha]
        simp [hfreed, hi, hget, isVacant, hv]
      | true =>
        refine Or.inl ⟨rfl, hfree, e, he, (release_addr m e).symm.trans haddr, ?_⟩
        have hlease : (release m e).lease = e.lease := by
          rw [release]
          split <;> rfl
        rw [request, ha]
        simp only [hfreed, hi, hget, isVacant, hv, decide_true, if_true, hlease, chaddr_fillReply, haddr,
          assign_eq hl' hi]
        rfl
    · rw [if_neg hv] at hholds
      refine Or.inr ⟨fun h => ?_, ?_⟩
      · rw [h.2.2] at hholds
        cases hholds
      · rw [request, ha]
        simp [hfreed, hi, hget, isVacant, hv]

theorem Linked.vacant_iff (hl : Linked entries h) (he : e ∈ entries) : isVacant e = true ↔
    holder noMac h e.addr = none := by
  rw [hl.holds e he, isVacant, decide_eq_true_iff]
  split <;> simp_all

/-- Which entry is offered: that of the client, or else one that nobody holds. -/
theorem entryFor_cases (hl : Linked entries h) (m : Mac) :
    (∃ i e, entryFor entries m = some i ∧ entries[i]? = some e ∧ e ∈ entries ∧
      (holder noMac h e.addr = some m ∨ (∀ a, holder noMac h a ≠ some m) ∧ holder noMac h e.addr = none)) ∨
    (entryFor entries m = none ∧ (∀ a, holder noMac h a ≠ some m) ∧
      ∀ a ∈ entries.map Entry.addr, holder noMac h a ≠ none) := by
  -- a client that no entry names holds nothing
  have hnone (hm : ∀ e ∈ entries, e.mac = m → m = noMac) (a : Ip4) : holder noMac h a ≠ some m := by
    intro ha
    obtain ⟨e, he, rfl⟩ := List.mem_map.mp (hl.pool a fun h => nomatch ha.symm.trans h)
    have hne : m ≠ noMac := fun hm => holder_ne_null (hm ▸ ha)
    rw [hl.holds e he] at ha
    split at ha
    · cases ha
    · exact hne (hm e he (Option.some.inj ha))
  rw [entryFor]
  cases hmac : entryByMac entries m with
  | some i =>
    obtain ⟨e, hget, he, hm⟩ := findIdx?_some hmac
    have hm : e.mac = m := of_decide_eq_true hm
    refine Or.inl ⟨i, e, rfl, hget, he, ?_⟩
    rw [hl.holds e he, hm]
    by_cases hv : m = noMac
    · rw [if_pos hv]
      refine Or.inr ⟨fun a ha => ?_, rfl⟩
      exact holder_ne_null (hv ▸ ha)
    · rw [if_neg hv]
      exact Or.inl rfl
  | none =>
    have hm : ∀ e ∈ entries, e.mac ≠ m := fun e he hm => by
      simpa [hm] using List.findIdx?_eq_none_iff.mp hmac e he
    have hno := hnone fun e he h => absurd h (hm e he)
    cases hvac : vacantAddress entries with
    | some i =>
      obtain ⟨e, hget, he, hv⟩ := findIdx?_some hvac
      exact Or.inl ⟨i, e, rfl, hget, he, Or.inr ⟨hno, (hl.vacant_iff he).mp hv⟩⟩
    | none =>
      refine Or.inr ⟨rfl, hno, fun a ha hfree => ?_⟩
      obtain ⟨e, he, rfl⟩ := List.mem_map.mp ha
      simpa [(hl.vacant_iff he).mpr hfree] using List.findIdx?_eq_none_iff.mp hvac e he

/-- `case DHCP_DISCOVER`: the client is offered the address it holds, or else one that nobody holds. -/
theorem discover_cases (cfg : Config) (netif : Netif) (alloc : Bool) (hl : Linked s.entries h) :
    let m := chaddr s.dhcpData
    let served := (∃ a, holder noMac h a = some m) ∨ ∃ a ∈ s.entries.map Entry.addr, holder noMac h a = none
    (discover cfg netif alloc s).1.entries = s.entries ∧
    ((alloc = true ∧ served ∧ ∃ e ∈ s.entries,
        let d := fillReply cfg netif dhcpOffer e.addr e.lease s.dhcpData
        discover cfg netif alloc s =
          ({ s with dhcpData := d }, some ⟨d, getDhcpDestination netif d e.addr false⟩) ∧
        (holder noMac h e.addr = some m ∨ (∀ a, holder noMac h a ≠ some m) ∧ holder noMac h e.addr = none)) ∨
      (¬ (alloc = true ∧ served) ∧ (discover cfg netif alloc s).2 = none)) := by
  intro m served
  rcases entryFor_cases hl m with ⟨i, e, hfor, hget, he, hheld⟩ | ⟨hfor, hno, hfull⟩
  · have hbind : (entryFor s.entries (chaddr s.dhcpData)).bind (fun i => s.entries[i]?) = some e := by
      rw [show entryFor s.entries (chaddr s.dhcpData) = some i from hfor]
      exact hget
    have hserved : served := hheld.imp (fun h => ⟨_, h⟩) fun h => ⟨_, List.mem_map_of_mem he, h.2⟩
    rw [discover, hbind]
    cases alloc with
    | false => exact ⟨rfl, Or.inr ⟨nofun, rfl⟩⟩
    | true => exact ⟨rfl, Or.inl ⟨rfl, hserved, e, he, rfl, hheld⟩⟩
  · have hbind : (entryFor s.entries (chaddr s.dhcpData)).bind (fun i => s.entries[i]?) = none := by
      rw [show entryFor s.entries (chaddr s.dhcpData) = none from hfor]
      rfl
    rw [discover, hbind]
    refine ⟨rfl, Or.inr ⟨?_, rfl⟩⟩
    rintro ⟨-, ⟨a, ha⟩ | ⟨a, ha, hfree⟩⟩
    · exact hno a ha
    · exact hfull a ha hfree

/-! ## Runs -/

/-- What a packet does: a discovery is answered or not, a request changes the table as the history
says, and nothing else is answered or changes the table. -/
inductive Outcome (cfg : Config) (netif : Netif) (alloc : Bool) (s : Server) (h : History) (d : Nat → Byte) :
    List Entry → Option Reply → History → Prop
  | offer {e : Entry} (ht : messageType d = some dhcpDiscover) (halloc : alloc = true) (he : e ∈ s.entries)
      (hheld : holder noMac h e.addr = some (chaddr d) ∨
        (∀ a, holder noMac h a ≠ some (chaddr d)) ∧ holder noMac h e.addr = none) :
      Outcome cfg netif alloc s h d s.entries
        (some ⟨fillReply cfg netif dhcpOffer e.addr e.lease d,
          getDhcpDestination netif (fillReply cfg netif dhcpOffer e.addr e.lease d) e.addr false⟩) []
  | ack {a : Ip4} {e : Entry} (ht : messageType d = some dhcpRequest) (ha : requestedIp d = some a)
      (halloc : alloc = true) (he : e ∈ s.entries) (hea : e.addr = a)
      (hfree : holder noMac (.request (chaddr d) :: h) a = none) :
      Outcome cfg netif alloc s h d ((s.entries.map (release (chaddr d))).map (assign a (chaddr d)))
        (some ⟨fillReply cfg netif dhcpAck a e.lease d,
          getDhcpDestination netif (fillReply cfg netif dhcpAck a e.lease d) a false⟩)
        [.grant (chaddr d) a, .request (chaddr d)]
  | refuse {a : Ip4} (ht : messageType d = some dhcpRequest) (ha : requestedIp d = some a)
      (hno : ¬ (alloc = true ∧ a ∈ s.entries.map Entry.addr ∧
        holder noMac (.request (chaddr d) :: h) a = none)) :
      Outcome cfg netif alloc s h d (s.entries.map (release (chaddr d))) none [.request (chaddr d)]
  | ignore (hdisc : messageType d = some dhcpDiscover →
      ¬ (alloc = true ∧ ((∃ a, holder noMac h a = some (chaddr d)) ∨
        ∃ a ∈ s.entries.map Entry.addr, holder noMac h a = none)))
      (hreq : messageType d = some dhcpRequest → requestedIp d = none) :
      Outcome cfg netif alloc s h d s.entries none []

theorem step_outcome (cfg : Config) (netif : Netif) (alloc : Bool) (payload : List Byte)
    (hl : Linked s.entries h) :
    Outcome cfg netif alloc s h (receive payload s.dhcpData) (udpRecvProc cfg netif alloc payload s).1.entries
      (udpRecvProc cfg netif alloc payload s).2
        (events payload s (udpRecvProc cfg netif alloc payload s).2) := by
  generalize hd : receive payload s.dhcpData = d
  have hl' : Linked (Server.mk s.entries d).entries h := hl
  simp only [udpRecvProc, events, hd]
  cases ht : messageType d with
  | none =>
    rw [if_neg fun h' => nomatch h'.1]
    exact .ignore (fun h => nomatch ht.symm.trans h) fun h => nomatch ht.symm.trans h
  | some t =>
    simp only [Option.some.injEq]
    by_cases hdisc : t = dhcpDiscover
    · subst hdisc
      have hne : ¬ (dhcpDiscover = dhcpRequest ∧ (requestedIp d).isSome = true) :=
        fun h => absurd h.1 (by decide)
      rw [if_pos rfl, if_neg hne]
      obtain ⟨hentries, ⟨halloc, -, e, he, heq, hheld⟩ | ⟨hno, hnone⟩⟩ := discover_cases cfg netif alloc hl'
      · rw [heq]
        exact .offer ht halloc he hheld
      · rw [hentries, hnone]
        exact .ignore (fun _ => hno) fun h => absurd (Option.some.inj (ht.symm.trans h)) (by decide)
    · rw [if_neg hdisc]
      by_cases hreq : t = dhcpRequest
      · subst hreq
        rw [if_pos rfl]
        cases ha : requestedIp d with
        | none =>
          have hstep : request cfg netif alloc ⟨s.entries, d⟩ = (⟨s.entries, d⟩, none) := by
            rw [request, ha]
          rw [hstep, if_neg fun h' => nomatch h'.2]
          exact .ignore (fun h => absurd (Option.some.inj (ht.symm.trans h)) hdisc) fun _ => ha
        | some a =>
          rw [if_pos ⟨rfl, rfl⟩]
          rcases request_cases cfg netif alloc hl' ha with
            ⟨halloc, hfree, e, he, hea, heq⟩ | ⟨hno, hnone, hentries⟩
          · rw [heq]
            simp only [Option.map_some, Option.toList_some, chaddr_fillReply, yiaddr_fillReply]
            exact .ack ht ha halloc he hea hfree.2
          · rw [hnone, hentries]
            exact .refuse ht ha hno
      · rw [if_neg hreq, if_neg fun h' => hreq h'.1]
        refine .ignore (fun h => ?_) fun h => ?_
        · exact absurd (Option.some.inj (ht.symm.trans h)) hdisc
        · exact absurd (Option.some.inj (ht.symm.trans h)) hreq

theorem Outcome.linked {d : Nat → Byte} {entries' : List Entry} {r : Option Reply} {evs : History}
    (ho : Outcome cfg netif alloc s h d entries' r evs) (hl : Linked s.entries h) :
    Linked entries' (evs ++ h) := by
  cases ho with
  | offer => exact hl
  | ignore => exact hl
  | refuse => exact hl.release _
  | ack ht ha halloc he hea hfree =>
    refine (hl.release _).assign ?_ hfree (holder_request_self _ h)
    rw [map_addr (release_addr _)]
    exact hea ▸ List.mem_map_of_mem he

theorem Outcome.pool {d : Nat → Byte} {entries' : List Entry} {r : Option Reply} {evs : History}
    (ho : Outcome cfg netif alloc s h d entries' r evs) :
    entries'.map Entry.addr = s.entries.map Entry.addr := by
  cases ho with
  | offer => rfl
  | ignore => rfl
  | refuse => exact map_addr (release_addr _) _
  | ack => rw [map_addr (assign_addr _ _), map_addr (release_addr _)]

variable {σ τ : Server × History} {ins : List (Bool × List Byte)}

theorem run_linked (hi : (server cfg netif).init σ) (hr : (server cfg netif).Run Lts.any σ ins τ) :
    Linked τ.1.entries τ.2 := by
  refine hr.inv (I := fun τ => Linked τ.1.entries τ.2) (fun s i t hl _ hn => ?_) ?_
  · obtain rfl := Option.some.inj hn
    exact (step_outcome _ _ _ _ hl).linked hl
  · obtain ⟨hvacant, hnodup, hnil⟩ := hi
    rw [hnil]
    exact ⟨hnodup, fun e he => by rw [if_pos (hvacant e he), holder], fun _ h => absurd rfl h, .nil⟩

/-- An address acknowledged to a client is acknowledged again, to anybody, only after another request of
that client, unless its hardware address is zero, by which `is_vacant` knows a free entry. -/
theorem lease_exclusive (hi : (server cfg netif).init σ) (hr : (server cfg netif).Run Lts.any σ ins τ)
    {h₁ mid h₂ : History} {m m' : Mac} (hh : τ.2 = h₂ ++ (.grant m' a :: mid ++ .grant m a :: h₁))
    (hm : m ≠ noMac) :
    .request m ∈ mid := by
  have hex := (run_linked hi hr).exclusive
  rw [hh] at hex
  exact request_between hex.suffix hm

theorem run_pool (hi : (server cfg netif).init σ) (hr : (server cfg netif).Run Lts.any σ ins τ) :
    τ.1.entries.map Entry.addr = σ.1.entries.map Entry.addr := by
  induction hr with
  | nil => rfl
  | snoc hr _ hn ih =>
    obtain rfl := Option.some.inj hn
    exact (step_outcome _ _ _ _ (run_linked hi hr)).pool.trans ih

theorem holder_request_eq_none : holder noMac (.request m :: h) a = none ↔
    holder noMac h a = none ∨ holder noMac h a = some m := by
  rw [holder]
  split
  · simp_all
  · simp_all

/-- Which packets are answered, in terms of who holds what: a discovery if the client holds an address
or one is free, and a request for an address of the pool that is free or the client's own. A request that
names an address and is not answered costs the client its own. -/
theorem replies_iff (hi : (server cfg netif).init σ) (hr : (server cfg netif).Run Lts.any σ ins τ)
    {d : Nat → Byte} (hd : receive payload τ.1.dhcpData = d) :
    ((∃ r, (udpRecvProc cfg netif alloc payload τ.1).2 = some r) ↔ alloc = true ∧
      (messageType d = some dhcpDiscover ∧ ((∃ a, holder noMac τ.2 a = some (chaddr d)) ∨
          ∃ a ∈ σ.1.entries.map Entry.addr, holder noMac τ.2 a = none) ∨
        messageType d = some dhcpRequest ∧ ∃ a ∈ σ.1.entries.map Entry.addr, requestedIp d = some a ∧
          (holder noMac τ.2 a = none ∨ holder noMac τ.2 a = some (chaddr d)))) ∧
    (messageType d = some dhcpRequest → requestedIp d ≠ none →
      (udpRecvProc cfg netif alloc payload τ.1).2 = none →
      ∀ e ∈ (udpRecvProc cfg netif alloc payload τ.1).1.entries, e.mac = chaddr d → chaddr d = noMac) := by
  have hl := run_linked hi hr
  have ho := step_outcome cfg netif alloc payload hl
  rw [← run_pool hi hr]
  rw [hd] at ho
  generalize events _ _ _ = evs at ho
  generalize (udpRecvProc cfg netif alloc payload τ.1).2 = r at ho ⊢
  generalize (udpRecvProc cfg netif alloc payload τ.1).1.entries = entries' at ho ⊢
  have hdiff : ¬ dhcpDiscover = dhcpRequest := by decide
  cases ho with
  | @offer e ht halloc he hheld =>
    refine ⟨iff_of_true ⟨_, rfl⟩ ⟨halloc, Or.inl ⟨ht, ?_⟩⟩, fun hreq =>
      absurd (Option.some.inj (ht.symm.trans hreq)) hdiff⟩
    exact hheld.imp (fun h => ⟨_, h⟩) fun h => ⟨_, List.mem_map_of_mem he, h.2⟩
  | @ack a e ht ha halloc he hea hfree =>
    refine ⟨iff_of_true ⟨_, rfl⟩ ⟨halloc, Or.inr ⟨ht, a, hea ▸ List.mem_map_of_mem he, ha, ?_⟩⟩, nofun⟩
    exact holder_request_eq_none.mp hfree
  | @refuse a ht ha hno =>
    refine ⟨iff_of_false nofun ?_, fun _ _ _ e he hm => ?_⟩
    · rintro ⟨halloc, ⟨ht', -⟩ | ⟨-, a', hpool, ha', hfree⟩⟩
      · exact hdiff (Option.some.inj (ht'.symm.trans ht))
      · obtain rfl := Option.some.inj (ha'.symm.trans ha)
        exact hno ⟨halloc, hpool, holder_request_eq_none.mpr hfree⟩
    · obtain ⟨e', -, rfl⟩ := List.mem_map.mp he
      rw [release] at hm
      split at hm
      · exact hm.symm
      · rename_i hne
        exact absurd hm hne
  | ignore hdisc hreq =>
    refine ⟨iff_of_false nofun ?_, fun ht hsome => absurd (hreq ht) hsome⟩
    rintro ⟨halloc, ⟨ht, hserved⟩ | ⟨ht, a, -, ha, -⟩⟩
    · exact hdisc ht ⟨halloc, hserved⟩
    · exact nomatch (hreq ht).symm.trans ha

/-! ## Options -/

/-- The value of the first option of a type. -/
def optionValue (d : Nat → Byte) (ty : Byte) : Option (List Byte) :=
  (findDhcpOption (fun i => d (dpOptions + i)) sizeofDpOptions ty).map fun p =>
    octets (fun i => d (dpOptions + i)) (p + 2) (d (dpOptions + (p + 1))).toNat

theorem length_octets (d : Nat → Byte) (off n : Nat) : (octets d off n).length = n := by
  simp [octets]

theorem octets_add (d : Nat → Byte) (off m n : Nat) :
    octets d off (m + n) = octets d off m ++ octets d (off + m) n := by
  simp [octets, List.range_add, Nat.add_assoc]

/-- `find_dhcp_option` finds the first option of the type among those that the area starts with. -/
theorem findLoop_eq (attrs : Nat → Byte) (size : Nat) (ty : Byte) {fuel i : Nat} (hi : i ≤ size)
    (hfuel : size ≤ i + fuel) :
    (findLoop attrs size ty fuel i).map (fun p => octets attrs (p + 2) (attrs (p + 1)).toNat) =
      (Tlv.parse (octets attrs i (size - i))).lookup ty := by
  induction fuel generalizing i with
  | zero =>
    have hend : size - i = 0 := by omega
    rw [hend]
    simp [findLoop, octets, Tlv.parse]
  | succ fuel ih =>
    rw [findLoop]
    by_cases hlt : i + 1 < size
    · obtain ⟨n, hn⟩ : ∃ n, size - i = 2 + n := ⟨size - i - 2, by omega⟩
      have hcons : octets attrs i (size - i) = attrs i :: attrs (i + 1) :: octets attrs (i + 2) n := by
        rw [hn, octets_add]
        rfl
      rw [if_pos hlt, hcons, Tlv.parse, length_octets]
      by_cases hfit : (attrs (i + 1)).toNat ≤ n
      · obtain ⟨k, rfl⟩ := Nat.exists_eq_add_of_le hfit
        rw [if_pos hfit, if_neg (by omega), octets_add, List.take_left' (length_octets _ _ _),
          List.drop_left' (length_octets _ _ _)]
        by_cases hty : attrs i = ty
        · rw [if_pos hty, hty]
          simp
        · have hrest : size - (i + (attrs (i + 1)).toNat + 2) = k := by omega
          have hoff : i + 2 + (attrs (i + 1)).toNat = i + (attrs (i + 1)).toNat + 2 := by omega
          have hne : (ty == attrs i) = false := beq_false_of_ne (Ne.symm hty)
          rw [if_neg hty, ih (by omega) (by omega), hrest, hoff, List.lookup_cons, hne]
      · rw [if_neg hfit, if_pos (by omega)]
        rfl
    · rw [if_neg hlt]
      have hshort : (octets attrs i (size - i)).length ≤ 1 := by
        rw [length_octets]
        omega
      generalize octets attrs i (size - i) = bs at hshort ⊢
      rcases bs with _ | ⟨b, _ | ⟨c, bs⟩⟩
      · simp [Tlv.parse]
      · simp [Tlv.parse]
      · simp at hshort

/-- The options of a reply. -/
def replyOptions (cfg : Config) (netif : Netif) (msgType : Byte) (lease : BitVec 32) : List Tlv.Opt :=
  [(optMessageType, [msgType]), (optServerId, ipBytes netif.ipAddr),
    (optLeaseTime, [(lease >>> 24).setWidth 8, (lease >>> 16).setWidth 8, (lease >>> 8).setWidth 8,
      lease.setWidth 8]),
    (optSubnetMask, ipBytes netif.netmask)] ++
  (if cfg.router ≠ 0 then [(optRouter, ipBytes cfg.router)] else []) ++
  (match cfg.domain with
    | some domain => [(optDnsDomain, domain)]
    | none => []) ++
  (if cfg.dns ≠ 0 then [(optDnsServer, ipBytes cfg.dns)] else [])

theorem fillOptions_eq (cfg : Config) (netif : Netif) (msgType : Byte) (lease : BitVec 32) :
    fillOptions msgType cfg.domain cfg.dns lease netif.ipAddr cfg.router netif.netmask =
      Tlv.encode (replyOptions cfg netif msgType lease) ++ [optEnd] := by
  have hrouter : Tlv.encode (if cfg.router ≠ 0 then [(optRouter, ipBytes cfg.router)] else []) =
      if cfg.router ≠ 0 then Tlv.encodeOpt optRouter (ipBytes cfg.router) else [] := by
    split <;> rfl
  have hdns : Tlv.encode (if cfg.dns ≠ 0 then [(optDnsServer, ipBytes cfg.dns)] else []) =
      if cfg.dns ≠ 0 then Tlv.encodeOpt optDnsServer (ipBytes cfg.dns) else [] := by
    split <;> rfl
  unfold fillOptions replyOptions
  rw [Tlv.encode_append, Tlv.encode_append, Tlv.encode_append, hrouter, hdns]
  cases cfg.domain with
  | none => rfl
  | some domain => simp [Tlv.encode]

/-- Where the domain leaves room, the options fit their area, and their lengths an octet. -/
theorem length_fillOptions (netif : Netif) (h : ∀ domain, cfg.domain = some domain → domain.length ≤ 238)
    (msgType : Byte) (lease : BitVec 32) :
    (fillOptions msgType cfg.domain cfg.dns lease netif.ipAddr cfg.router netif.netmask).length <
      sizeofDpOptions ∧
      ∀ o ∈ replyOptions cfg netif msgType lease, o.2.length < 256 := by
  have hip (a : Ip4) : (ipBytes a).length = 4 := rfl
  constructor
  · unfold fillOptions
    simp only [List.length_append, Tlv.length_encodeOpt, hip, List.length_cons, List.length_nil,
      sizeofDpOptions, apply_ite List.length]
    cases hdom : cfg.domain with
    | none =>
      simp only [List.length_nil]
      split <;> split <;> omega
    | some domain =>
      have := h domain hdom
      simp only [Tlv.length_encodeOpt]
      split <;> split <;> omega
  · intro o ho
    unfold replyOptions at ho
    simp only [List.mem_append, List.mem_cons, List.not_mem_nil, or_false] at ho
    have hfour : 4 < 256 := by decide
    rcases ho with (((rfl | rfl | rfl | rfl) | ho) | ho) | ho
    · exact Nat.lt_of_le_of_lt (by decide : 1 ≤ 4) hfour
    · exact hfour
    · exact hfour
    · exact hfour
    · split at ho
      · obtain rfl := List.mem_singleton.mp ho
        exact hfour
      · cases ho
    · cases hdom : cfg.domain with
      | none =>
        rw [hdom] at ho
        cases ho
      | some domain =>
        have := h domain hdom
        rw [hdom] at ho
        obtain rfl := List.mem_singleton.mp ho
        simp only
        omega
    · split at ho
      · obtain rfl := List.mem_singleton.mp ho
        exact hfour
      · cases ho

theorem octets_eq (d : Nat → Byte) (bs : List Byte) {n : Nat} (h : bs.length ≤ n)
    (hd : ∀ i < n, d i = bs.getD i 0) :
    octets d 0 n = bs ++ List.replicate (n - bs.length) 0 := by
  refine List.ext_getElem (by simp [octets]; omega) fun i hi _ => ?_
  simp only [octets, List.getElem_map, List.getElem_range, Nat.zero_add]
  rw [length_octets] at hi
  rw [hd i hi, List.getElem_append]
  split
  · exact List.getD_eq_getElem _ _ ‹_›
  · rw [List.getD_eq_default _ _ (by omega), List.getElem_replicate]

/-- The octets of a reply's options area. -/
theorem octets_fillReply {msgType : Byte} {lease : BitVec 32} {d : Nat → Byte}
    (h : (fillOptions msgType cfg.domain cfg.dns lease netif.ipAddr cfg.router netif.netmask).length <
      sizeofDpOptions) :
    ∃ n, octets (fun i => fillReply cfg netif msgType a lease d (dpOptions + i)) 0 sizeofDpOptions =
      Tlv.encode (replyOptions cfg netif msgType lease ++ [(optEnd, [])]) ++ List.replicate n 0 := by
  obtain ⟨n, hn⟩ := Nat.exists_eq_add_of_lt h
  refine ⟨n, ?_⟩
  rw [octets_eq _ _ (Nat.le_of_lt h) fun i hi => options_fillReply hi]
  rw [show sizeofDpOptions - _ = n + 1 from by omega, List.replicate_succ, fillOptions_eq, Tlv.encode_append,
    List.append_assoc, List.append_assoc]
  rfl

/-- Every option of a reply is found with the value that was written, and no other. -/
theorem optionValue_fillReply (h : ∀ domain, cfg.domain = some domain → domain.length ≤ 238) {msgType ty : Byte}
    {lease : BitVec 32} {d : Nat → Byte} (hty : ty ≠ 0) (hend : ty ≠ optEnd) :
    optionValue (fillReply cfg netif msgType a lease d) ty =
      (replyOptions cfg netif msgType lease).lookup ty := by
  obtain ⟨hlen, hshort⟩ := length_fillOptions netif h msgType lease
  obtain ⟨n, hn⟩ := octets_fillReply (a := a) (d := d) hlen
  have hfind := findLoop_eq (fun i => fillReply cfg netif msgType a lease d (dpOptions + i)) sizeofDpOptions ty
    (Nat.zero_le _) (Nat.le_add_left sizeofDpOptions 0)
  have hzeros : (Tlv.parse (List.replicate n 0)).lookup ty = none :=
    List.lookup_eq_none_iff.mpr fun o ho => by simpa [Tlv.mem_parse_zeros ho] using hty
  have hends : [(optEnd, ([] : List Byte))].lookup ty = none := by
    rw [List.lookup_cons, beq_false_of_ne hend, List.lookup_nil]
  rw [Nat.sub_zero, hn, Tlv.parse_encode, List.lookup_append, List.lookup_append, hzeros, hends, Option.or_none,
    Option.or_none] at hfind
  · exact hfind
  · intro o ho
    rcases List.mem_append.mp ho with ho | ho
    · exact hshort o ho
    · obtain rfl := List.mem_singleton.mp ho
      decide

/-- A reply is for the client that asked, names an entry of the table, and a search of its options for a type
other than those of the padding and the end finds what was written, and nothing of another type. -/
theorem reply_options (hdom : ∀ domain, cfg.domain = some domain → domain.length ≤ 238)
    (hi : (server cfg netif).init σ) (hr : (server cfg netif).Run Lts.any σ ins τ)
    {d : Nat → Byte} (hd : receive payload τ.1.dhcpData = d) {r : Reply}
    (hrep : (udpRecvProc cfg netif alloc payload τ.1).2 = some r) {ty : Byte} (hty : ty ≠ 0)
    (hend : ty ≠ optEnd) :
    ∃ e ∈ τ.1.entries, getIp r.data dpYiaddr = e.addr ∧ chaddr r.data = chaddr d ∧
      optionValue r.data ty =
        (replyOptions cfg netif (if messageType d = some dhcpDiscover then dhcpOffer else dhcpAck)
          e.lease).lookup ty := by
  have ho := step_outcome cfg netif alloc payload (run_linked hi hr)
  rw [hd, hrep] at ho
  generalize events _ _ _ = evs at ho
  generalize (udpRecvProc cfg netif alloc payload τ.1).1.entries = entries' at ho
  have hdiff : ¬ dhcpRequest = dhcpDiscover := by decide
  cases ho with
  | @offer e ht halloc he hheld =>
    refine ⟨e, he, yiaddr_fillReply, chaddr_fillReply, ?_⟩
    rw [if_pos ht]
    exact optionValue_fillReply hdom hty hend
  | @ack a e ht ha halloc he hea hfree =>
    refine ⟨e, he, yiaddr_fillReply.trans hea.symm, chaddr_fillReply, ?_⟩
    rw [if_neg fun h => hdiff (Option.some.inj (ht.symm.trans h))]
    exact optionValue_fillReply hdom hty hend

/-! ## A run -/

/-- A packet of `mac` with the options `opts`. -/
def packetOf (mac : Mac) (opts : List Byte) : List Byte :=
  List.replicate 28 0 ++ mac.toList ++ List.replicate 206 0 ++ opts

/-- A request of `mac` for the address whose octets are `ip`. -/
def requestOf (mac : Mac) (ip : List Byte) : Bool × List Byte :=
    (true, packetOf mac ([53, 1, 3, 50, 4] ++ ip ++ [255]))

def macA : Mac := #v[2, 0, 0, 0, 0, 1]
def macB : Mac := #v[2, 0, 0, 0, 0, 2]

theorem init_reset : (server dhcpConfig usbNetif).init (Server.reset, []) :=
  ⟨by decide, by decide, rfl⟩

/-- The requests of a run: the first client takes an address and then another one, and the second
client takes the first. -/
def passing : List (Bool × List Byte) :=
  [requestOf macA [192, 168, 4, 2], requestOf macA [192, 168, 4, 3], requestOf macB [192, 168, 4, 2]]

/-- What comes between the two grants of the first address. -/
def passingMid : History := [.request macB, .grant macA (initIp4 192 168 4 3), .request macA]

theorem lease_exclusive_passed : ∃ τ, (server dhcpConfig usbNetif).Run Lts.any (Server.reset, []) passing τ ∧
    τ.2 = [] ++ (.grant macB (initIp4 192 168 4 2) :: passingMid ++
      .grant macA (initIp4 192 168 4 2) :: [.request macA]) ∧
    .request macA ∈ passingMid := by
  have hr := Lts.Run.any_of_exec (server dhcpConfig usbNetif) (Server.reset, []) passing rfl
  have hh : ((server dhcpConfig usbNetif).exec (fun _ _ => true) (Server.reset, []) passing).1.2 =
      [] ++ (.grant macB (initIp4 192 168 4 2) :: passingMid ++
        .grant macA (initIp4 192 168 4 2) :: [.request macA]) := by
    decide +kernel
  exact ⟨_, hr, hh, lease_exclusive init_reset hr hh (by decide)⟩

/-- A request for an address that is taken is not answered, and costs the client its own. -/
theorem replies_iff_taken : ∃ τ,
    (server dhcpConfig usbNetif).Run Lts.any (Server.reset, [])
      [requestOf macA [192, 168, 4, 2], requestOf macB [192, 168, 4, 3]] τ ∧
      (udpRecvProc dhcpConfig usbNetif true (requestOf macA [192, 168, 4, 3]).2 τ.1).2 = none ∧
      ∀ e ∈ (udpRecvProc dhcpConfig usbNetif true (requestOf macA [192, 168, 4, 3]).2 τ.1).1.entries,
        e.mac ≠ macA := by
  have hr := Lts.Run.any_of_exec (server dhcpConfig usbNetif) (Server.reset, [])
    [requestOf macA [192, 168, 4, 2], requestOf macB [192, 168, 4, 3]] rfl
  generalize hτ : ((server dhcpConfig usbNetif).exec (fun _ _ => true) (Server.reset, [])
    [requestOf macA [192, 168, 4, 2], requestOf macB [192, 168, 4, 3]]).1 = τ at hr
  generalize hd : receive (requestOf macA [192, 168, 4, 3]).2 τ.1.dhcpData = d
  have hnone : (udpRecvProc dhcpConfig usbNetif true (requestOf macA [192, 168, 4, 3]).2 τ.1).2 = none := by
    rw [← Option.isNone_iff_eq_none, ← hτ]
    decide +kernel
  have ht : messageType d = some dhcpRequest ∧ requestedIp d ≠ none ∧ chaddr d = macA := by
    rw [← hd, ← hτ]
    decide +kernel
  obtain ⟨ht, hip, hmac⟩ := ht
  refine ⟨τ, hr, hnone, fun e he hm => ?_⟩
  have hzero := (replies_iff init_reset hr hd).2 ht hip hnone e he (hm.trans hmac.symm)
  rw [hmac] at hzero
  exact absurd hzero (by decide)

/-- The first offer; the mask in it is the server's own address. -/
theorem reply_options_offer : ∃ r,
    (udpRecvProc dhcpConfig usbNetif true (packetOf macA [53, 1, 1, 255]) Server.reset).2 = some r ∧
      optionValue r.data optSubnetMask = some [192, 168, 4, 1] := by
  have hsome : (udpRecvProc dhcpConfig usbNetif true (packetOf macA [53, 1, 1, 255]) Server.reset).2.isSome =
      true := by
    decide +kernel
  obtain ⟨r, hrep⟩ := Option.isSome_iff_exists.mp hsome
  obtain ⟨e, -, -, -, hval⟩ := reply_options (by decide) init_reset .nil rfl hrep
    (show optSubnetMask ≠ 0 by decide) (by decide)
  refine ⟨r, hrep, hval.trans ?_⟩
  simp only [replyOptions]
  rfl

end Rs485.Dhcp
