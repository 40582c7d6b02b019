-- Port routing. Whatever the requests to a bridge are, the ranges of its clients
-- lie apart, and its index of the starts of these ranges leads from a port to
-- the client that owns it, and for a free port to none.
import WordMachine.Ports.Bridge
import WordMachine.Proofs.AddressMaps

namespace WordMachine

/-- A port lies in the range of a connection. -/
def Connection.Holds {γ : Type} (c : Connection γ) (port : UInt16) : Prop :=
  c.base.toNat ≤ port.toNat ∧ port.toNat < c.finish

namespace PortBridge

variable {γ : Type}

/-! ## Requests -/

/-- What can be asked of a bridge. -/
inductive Request (γ : Type)
  | connect (client : γ)
  | disconnect (id : Nat)
  | input (port : UInt16)
  | output (port value : UInt16)

/-- The bridge after a request. One that is refused changes nothing. -/
def after [PortClient γ] (b : PortBridge γ) : Request γ → PortBridge γ
  | .connect client =>
    match b.connect client with
    | .ok (_, b') => b'
    | .error _ => b
  | .disconnect id =>
    match b.disconnect id with
    | .ok (_, b') => b'
    | .error _ => b
  | .input port => (Device.input b port).2
  | .output port value => Device.output b port value

/-- The bridge after requests to the one without clients. -/
def ofRequests [PortClient γ] (requests : List (Request γ)) : PortBridge γ :=
  requests.foldl after empty

/-! ## The invariant -/

/-- The ranges of the clients are not empty, lie within the ports and apart from each
other, and the index has just one entry for each of them, from its start to its client. -/
structure Sound (b : PortBridge γ) : Prop where
  ports_pos : ∀ id c, b.connections.get? id = some c → 0 < c.ports.toNat
  inside : ∀ id c, b.connections.get? id = some c → c.finish ≤ portCount
  apart : ∀ id c id' c', b.connections.get? id = some c → b.connections.get? id' = some c' →
    id ≠ id' → c.finish ≤ c'.base.toNat ∨ c'.finish ≤ c.base.toNat
  bases_iff : ∀ base id, b.bases.get? base = some id ↔
    ∃ c, b.connections.get? id = some c ∧ c.base.toNat = base
  id_lt : ∀ id c, b.connections.get? id = some c → id < b.nextId

theorem sound_empty : (empty : PortBridge γ).Sound := by
  refine ⟨?_, ?_, ?_, ?_, ?_⟩ <;> simp [empty]

theorem isFree_iff {b : PortBridge γ} {base ports : Nat} : b.isFree base ports = true ↔
    base + ports ≤ portCount ∧ ∀ id c, b.connections.get? id = some c →
      c.finish ≤ base ∨ base + ports ≤ c.base.toNat := by
  unfold isFree
  simp only [Bool.and_eq_true, decide_eq_true_eq, List.all_eq_true, Bool.or_eq_true,
    AddressMap.mem_values, forall_exists_index]
  exact and_congr_right fun _ => forall_comm

theorem get?_attach {b : PortBridge γ} {c d : Connection γ} {id : Nat} :
    (b.attach c).connections.get? id = some d ↔
      id = b.nextId ∧ d = c ∨ id ≠ b.nextId ∧ b.connections.get? id = some d := by
  unfold PortBridge.attach
  rw [AddressMap.get?_insert]
  by_cases hid : id = b.nextId
  · simp [hid, eq_comm]
  · simp [hid]

/-- No client starts where a free range does, since both ranges would have a port there. -/
theorem Sound.base_ne_of_isFree {b : PortBridge γ} (h : b.Sound) {base ports : Nat}
    (hpos : 0 < ports) (hfree : b.isFree base ports = true) {id : Nat} {d : Connection γ}
    (hd : b.connections.get? id = some d) : d.base.toNat ≠ base := by
  have hp := h.ports_pos id d hd
  have hmeets := (isFree_iff.1 hfree).2 id d hd
  unfold Connection.finish at hmeets
  omega

/-- The index has an entry for a new client, and for the others those that it had. -/
theorem Sound.bases_attach {b : PortBridge γ} (h : b.Sound) {c : Connection γ}
    (hother : ∀ id d, b.connections.get? id = some d → d.base.toNat ≠ c.base.toNat)
    (base id : Nat) : (b.attach c).bases.get? base = some id ↔
      ∃ d, (b.attach c).connections.get? id = some d ∧ d.base.toNat = base := by
  have hbases : (b.attach c).bases.get? base =
      if base = c.base.toNat then some b.nextId else b.bases.get? base := AddressMap.get?_insert
  simp only [hbases, get?_attach]
  by_cases hb : base = c.base.toNat
  · rw [if_pos hb, Option.some.injEq]
    constructor
    · rintro rfl
      exact ⟨c, .inl ⟨rfl, rfl⟩, hb.symm⟩
    · rintro ⟨d, ⟨rfl, -⟩ | ⟨-, hd⟩, hdb⟩
      · rfl
      · exact absurd (hdb.trans hb) (hother id d hd)
  · rw [if_neg hb, h.bases_iff]
    constructor
    · rintro ⟨d, hd, hdb⟩
      have hlt := h.id_lt id d hd
      exact ⟨d, .inr ⟨by omega, hd⟩, hdb⟩
    · rintro ⟨d, ⟨-, rfl⟩ | ⟨-, hd⟩, hdb⟩
      · exact absurd hdb.symm hb
      · exact ⟨d, hd, hdb⟩

/-- A new client whose range is free keeps the ranges apart. -/
theorem Sound.attach {b : PortBridge γ} (h : b.Sound) {c : Connection γ} (hpos : 0 < c.ports.toNat)
    (hfree : b.isFree c.base.toNat c.ports.toNat = true) : (b.attach c).Sound := by
  obtain ⟨hin, hmeets⟩ := isFree_iff.1 hfree
  refine ⟨?_, ?_, ?_, h.bases_attach fun id d => h.base_ne_of_isFree hpos hfree, ?_⟩
  · intro id d hd
    rcases get?_attach.1 hd with ⟨-, rfl⟩ | ⟨-, hd⟩
    · exact hpos
    · exact h.ports_pos id d hd
  · intro id d hd
    rcases get?_attach.1 hd with ⟨-, rfl⟩ | ⟨-, hd⟩
    · exact hin
    · exact h.inside id d hd
  · intro id d id' d' hd hd' hne
    rcases get?_attach.1 hd with ⟨hid, rfl⟩ | ⟨-, hold⟩
    · rcases get?_attach.1 hd' with ⟨hid', -⟩ | ⟨-, hold'⟩
      · exact absurd (hid.trans hid'.symm) hne
      · exact (hmeets id' d' hold').symm
    · rcases get?_attach.1 hd' with ⟨-, rfl⟩ | ⟨-, hold'⟩
      · exact hmeets id d hold
      · exact h.apart id d id' d' hold hold' hne
  · intro id d hd
    have hnext : (b.attach c).nextId = b.nextId + 1 := rfl
    rcases get?_attach.1 hd with ⟨rfl, -⟩ | ⟨-, hd⟩
    · omega
    · have := h.id_lt id d hd
      omega

/-- Without one of its clients a bridge is as sound as before. -/
theorem Sound.detach {b : PortBridge γ} (h : b.Sound) {id : Nat} {c : Connection γ}
    (hc : b.connections.get? id = some c) :
    ({ b with connections := b.connections.erase id, bases := b.bases.erase c.base.toNat } :
      PortBridge γ).Sound := by
  have hget : ∀ i d, (b.connections.erase id).get? i = some d ↔
      i ≠ id ∧ b.connections.get? i = some d := by
    intro i d
    rw [AddressMap.get?_erase]
    by_cases hi : i = id <;> simp [hi]
  refine ⟨?_, ?_, ?_, ?_, ?_⟩
  · intro i d hd
    exact h.ports_pos i d ((hget i d).1 hd).2
  · intro i d hd
    exact h.inside i d ((hget i d).1 hd).2
  · intro i d i' d' hd hd' hne
    exact h.apart i d i' d' ((hget i d).1 hd).2 ((hget i' d').1 hd').2 hne
  · intro base i
    simp only [hget]
    rw [AddressMap.get?_erase]
    by_cases hb : base = c.base.toNat
    · simp only [if_pos hb, reduceCtorEq, false_iff]
      rintro ⟨d, ⟨hi, hd⟩, hdb⟩
      -- Only one client has its entry at this base.
      have h₁ := (h.bases_iff base i).2 ⟨d, hd, hdb⟩
      have h₂ := (h.bases_iff base id).2 ⟨c, hc, hb.symm⟩
      exact hi (Option.some.inj (h₁.symm.trans h₂))
    · rw [if_neg hb, h.bases_iff]
      constructor
      · rintro ⟨d, hd, hdb⟩
        refine ⟨d, ⟨?_, hd⟩, hdb⟩
        rintro rfl
        rw [hc] at hd
        cases hd
        exact hb hdb.symm
      · rintro ⟨d, ⟨-, hd⟩, hdb⟩
        exact ⟨d, hd, hdb⟩
  · intro i d hd
    exact h.id_lt i d ((hget i d).1 hd).2

/-! ## Free ranges -/

/-- The connections are passed in ascending order of their ranges. -/
theorem Sound.pairwise_byBase {b : PortBridge γ} (h : b.Sound) :
    b.byBase.Pairwise fun c d => c.base.toNat < d.base.toNat := by
  unfold byBase AddressMap.values
  rw [List.pairwise_filterMap, List.pairwise_map]
  refine b.bases.pairwise_toList.imp_of_mem ?_
  rintro ⟨base, id⟩ ⟨base', id'⟩ hm hm' hlt c hc d hd
  obtain ⟨c', hc', hcb⟩ := (h.bases_iff base id).1 (AddressMap.mem_toList.1 hm)
  obtain ⟨d', hd', hdb⟩ := (h.bases_iff base' id').1 (AddressMap.mem_toList.1 hm')
  rw [hc] at hc'
  rw [hd] at hd'
  cases hc'
  cases hd'
  rw [hcb, hdb]
  exact hlt

theorem Sound.mem_byBase {b : PortBridge γ} (h : b.Sound) {c : Connection γ} :
    c ∈ b.byBase ↔ ∃ id, b.connections.get? id = some c := by
  unfold byBase
  simp only [List.mem_filterMap, AddressMap.mem_values]
  constructor
  · rintro ⟨id, -, hc⟩
    exact ⟨id, hc⟩
  · rintro ⟨id, hc⟩
    exact ⟨id, ⟨_, (h.bases_iff _ id).2 ⟨c, hc, rfl⟩⟩, hc⟩

/-- A gap is not below the port to start from, and no given range reaches into it. -/
theorem firstGap_spec {ports candidate : Nat} {cs : List (Connection γ)}
    (hcs : cs.Pairwise fun c d => c.base.toNat < d.base.toNat) :
    candidate ≤ firstGap ports candidate cs ∧ ∀ c ∈ cs,
      c.finish ≤ firstGap ports candidate cs ∨
        firstGap ports candidate cs + ports ≤ c.base.toNat := by
  induction cs generalizing candidate with
  | nil => simp [firstGap]
  | cons c cs ih =>
    obtain ⟨hc, hcs⟩ := List.pairwise_cons.1 hcs
    unfold firstGap
    split
    · rename_i hle
      refine ⟨Nat.le_refl candidate, List.forall_mem_cons.2 ⟨.inr hle, fun d hd => ?_⟩⟩
      have := hc d hd
      right
      omega
    · obtain ⟨hle, hall⟩ := @ih (max candidate c.finish) hcs
      exact ⟨by omega, List.forall_mem_cons.2 ⟨.inl (by omega), hall⟩⟩

/-- What is found is the gap itself: one that fits below the last port is a port. -/
theorem toNat_of_findFree? {b : PortBridge γ} {ports : Nat} {base : UInt16} (hpos : 0 < ports)
    (hf : b.findFree? ports = some base) :
    base.toNat = firstGap ports 0 b.byBase ∧ base.toNat + ports ≤ portCount := by
  unfold findFree? at hf
  simp only at hf
  split at hf
  · rename_i hle
    have hbase : base.toNat = firstGap ports 0 b.byBase := by
      rw [← Option.some.inj hf, UInt16.toNat_ofNat_of_lt']
      simp only [portCount] at hle
      simp only [UInt16.size]
      omega
    exact ⟨hbase, hbase ▸ hle⟩
  · cases hf

theorem Sound.isFree_of_findFree? {b : PortBridge γ} (h : b.Sound) {ports : Nat} {base : UInt16}
    (hpos : 0 < ports) (hf : b.findFree? ports = some base) :
    b.isFree base.toNat ports = true := by
  obtain ⟨hbase, hle⟩ := toNat_of_findFree? hpos hf
  refine isFree_iff.2 ⟨hle, fun id c hc => ?_⟩
  rw [hbase]
  exact (firstGap_spec h.pairwise_byBase).2 c (h.mem_byBase.2 ⟨id, hc⟩)

/-! ## Routing -/

/-- Only the client with the number `id` differs in `b'`, and it is now in the given state. -/
structure Changes (b : PortBridge γ) (id : Nat) (client : γ) (b' : PortBridge γ) : Prop where
  changed : ∀ c, b.connections.get? id = some c →
    b'.connections.get? id = some { c with client }
  others : ∀ i, i ≠ id → b'.connections.get? i = b.connections.get? i
  bases_eq : b'.bases = b.bases
  nextId_eq : b'.nextId = b.nextId

theorem changes_setClient {b : PortBridge γ} {id : Nat} {c : Connection γ}
    (hc : b.connections.get? id = some c) (client : γ) :
    b.Changes id client (b.setClient id c client) := by
  refine ⟨fun d hd => ?_, fun i hi => ?_, rfl, rfl⟩
  · rw [hc] at hd
    cases hd
    unfold setClient
    rw [AddressMap.get?_insert, if_pos rfl]
  · unfold setClient
    rw [AddressMap.get?_insert, if_neg hi]

/-- The same numbers have the same ranges. -/
def SameRanges (b b' : PortBridge γ) : Prop :=
  ∀ id, (b'.connections.get? id).map (fun c => (c.base, c.ports)) =
    (b.connections.get? id).map fun c => (c.base, c.ports)

theorem SameRanges.symm {b b' : PortBridge γ} (h : b.SameRanges b') : b'.SameRanges b :=
  fun id => (h id).symm

theorem SameRanges.exists_of {b b' : PortBridge γ} (h : b.SameRanges b') {id : Nat}
    {c : Connection γ} (hc : b'.connections.get? id = some c) :
    ∃ d, b.connections.get? id = some d ∧ d.base = c.base ∧ d.ports = c.ports ∧
      d.finish = c.finish := by
  have hrange := h id
  rw [hc, Option.map_some, eq_comm, Option.map_eq_some_iff] at hrange
  obtain ⟨d, hd, heq⟩ := hrange
  obtain ⟨hbase, hports⟩ := Prod.mk.inj heq
  refine ⟨d, hd, hbase, hports, ?_⟩
  unfold Connection.finish
  rw [hbase, hports]

theorem Changes.sameRanges {b b' : PortBridge γ} {id : Nat} {client : γ}
    (h : b.Changes id client b') (hid : (b.connections.get? id).isSome) : b.SameRanges b' := by
  intro i
  by_cases hi : i = id
  · obtain ⟨c, hc⟩ := Option.isSome_iff_exists.1 hid
    rw [hi, h.changed c hc, hc]
    rfl
  · rw [h.others i hi]

/-- The invariant does not depend on the states of the clients. -/
theorem Sound.of_sameRanges {b b' : PortBridge γ} (h : b.Sound) (hranges : b.SameRanges b')
    (hbases : b'.bases = b.bases) (hnext : b'.nextId = b.nextId) : b'.Sound := by
  refine ⟨?_, ?_, ?_, ?_, ?_⟩
  · intro id c hc
    obtain ⟨d, hd, -, hports, -⟩ := hranges.exists_of hc
    exact hports ▸ h.ports_pos id d hd
  · intro id c hc
    obtain ⟨d, hd, -, -, hfinish⟩ := hranges.exists_of hc
    exact hfinish ▸ h.inside id d hd
  · intro id c id' c' hc hc' hne
    obtain ⟨d, hd, hbase, -, hfinish⟩ := hranges.exists_of hc
    obtain ⟨d', hd', hbase', -, hfinish'⟩ := hranges.exists_of hc'
    rw [← hfinish, ← hfinish', ← hbase, ← hbase']
    exact h.apart id d id' d' hd hd' hne
  · intro base id
    rw [hbases, h.bases_iff]
    constructor
    · rintro ⟨c, hc, rfl⟩
      obtain ⟨d, hd, hbase, -⟩ := hranges.symm.exists_of hc
      exact ⟨d, hd, congrArg UInt16.toNat hbase⟩
    · rintro ⟨c, hc, rfl⟩
      obtain ⟨d, hd, hbase, -⟩ := hranges.exists_of hc
      exact ⟨d, hd, congrArg UInt16.toNat hbase⟩
  · intro id c hc
    obtain ⟨d, hd, -⟩ := hranges.exists_of hc
    rw [hnext]
    exact h.id_lt id d hd

theorem Sound.of_changes {b b' : PortBridge γ} (h : b.Sound) {id : Nat} {client : γ}
    (hb : b.Changes id client b') (hid : (b.connections.get? id).isSome) : b'.Sound :=
  h.of_sameRanges (hb.sameRanges hid) hb.bases_eq hb.nextId_eq

/-- The index leads from a port to its owner: no other client starts between the start of
the owner's range and the port. -/
theorem Sound.route?_of_holds {b : PortBridge γ} (h : b.Sound) {id : Nat} {c : Connection γ}
    {port : UInt16} (hc : b.connections.get? id = some c) (hp : c.Holds port) :
    b.route? port = some (id, c) := by
  have hbase := (h.bases_iff c.base.toNat id).2 ⟨c, hc, rfl⟩
  cases hf : b.bases.floor? port.toNat with
  | none =>
    have := AddressMap.floor?_eq_none_iff.1 hf _ _ hbase
    have := hp.1
    omega
  | some e =>
    obtain ⟨start, other⟩ := e
    obtain ⟨hstart, hle, hlast⟩ := AddressMap.of_floor?_eq_some hf
    obtain ⟨d, hd, hdb⟩ := (h.bases_iff start other).1 hstart
    have hcd := hlast _ _ hbase hp.1
    have hother : other = id := by
      apply Decidable.byContradiction
      intro hne
      have hpos := h.ports_pos other d hd
      have hport := hp.2
      have hfinish : d.finish = d.base.toNat + d.ports.toNat := rfl
      rcases h.apart other d id c hd hc hne with hlt | hlt
      · omega
      · omega
    subst hother
    unfold route?
    rw [hf]
    simp only [Option.bind_eq_bind, Option.bind_some, hc, if_pos hp.2]

theorem Sound.holds_of_route? {b : PortBridge γ} (h : b.Sound) {id : Nat} {c : Connection γ}
    {port : UInt16} (hr : b.route? port = some (id, c)) :
    b.connections.get? id = some c ∧ c.Holds port := by
  unfold route? at hr
  simp only [Option.bind_eq_bind, Option.bind_eq_some_iff] at hr
  obtain ⟨⟨start, other⟩, hf, d, hd, hr⟩ := hr
  split at hr
  · rename_i hlt
    cases hr
    obtain ⟨hstart, hle, -⟩ := AddressMap.of_floor?_eq_some hf
    obtain ⟨d, hd', hdb⟩ := (h.bases_iff start _).1 hstart
    rw [hd] at hd'
    cases hd'
    exact ⟨hd, hdb ▸ hle, hlt⟩
  · cases hr

/-- How a bridge answers at a port. The owner of the port is called once, with the distance
of the port from the start of its range, and no other client is. At a port without an owner
nothing is read and nothing changes. -/
structure Serves [PortClient γ] (b : PortBridge γ) (port : UInt16) : Prop where
  owned : ∀ id c, b.connections.get? id = some c → c.Holds port →
    ∃ offset : UInt16, offset.toNat = port.toNat - c.base.toNat ∧ offset < c.ports ∧
      (Device.input b port).1 = (PortClient.read c.client offset).1 ∧
      b.Changes id (PortClient.read c.client offset).2 (Device.input b port).2 ∧
      ∀ value, b.Changes id (PortClient.write c.client offset value) (Device.output b port value)
  free : (∀ id c, b.connections.get? id = some c → ¬ c.Holds port) →
    Device.input b port = (0, b) ∧ ∀ value, Device.output b port value = b

section Clients

variable [PortClient γ]

theorem input_of_route? {b : PortBridge γ} {port : UInt16} {id : Nat} {c : Connection γ}
    (hr : b.route? port = some (id, c)) : Device.input b port =
      ((PortClient.read c.client (port - c.base)).1,
        b.setClient id c (PortClient.read c.client (port - c.base)).2) := by
  simp only [Device.input, hr]

theorem output_of_route? {b : PortBridge γ} {port value : UInt16} {id : Nat} {c : Connection γ}
    (hr : b.route? port = some (id, c)) : Device.output b port value =
      b.setClient id c (PortClient.write c.client (port - c.base) value) := by
  simp only [Device.output, hr]

theorem input_of_free {b : PortBridge γ} {port : UInt16} (hr : b.route? port = none) :
    Device.input b port = (0, b) := by
  simp only [Device.input, hr]

theorem output_of_free {b : PortBridge γ} {port value : UInt16}
    (hr : b.route? port = none) :
    Device.output b port value = b := by
  simp only [Device.output, hr]

theorem Sound.serves {b : PortBridge γ} (h : b.Sound) (port : UInt16) : b.Serves port := by
  constructor
  · intro id c hc hp
    have hr := h.route?_of_holds hc hp
    obtain ⟨hle, hlt⟩ := hp
    have hoffset : (port - c.base).toNat = port.toNat - c.base.toNat :=
      UInt16.toNat_sub_of_le _ _ (UInt16.le_iff_toNat_le.2 hle)
    have hfinish : c.finish = c.base.toNat + c.ports.toNat := rfl
    refine ⟨port - c.base, hoffset, ?_, ?_, ?_, fun value => ?_⟩
    · rw [UInt16.lt_iff_toNat_lt, hoffset]
      omega
    · rw [input_of_route? hr]
    · rw [input_of_route? hr]
      exact changes_setClient hc _
    · rw [output_of_route? hr]
      exact changes_setClient hc _
  · intro hfree
    have hr : b.route? port = none := by
      cases hr : b.route? port with
      | none => rfl
      | some r =>
        obtain ⟨id, c⟩ := r
        obtain ⟨hc, hp⟩ := h.holds_of_route? hr
        exact absurd hp (hfree id c hc)
    exact ⟨input_of_free hr, fun value => output_of_free hr⟩

end Clients

/-! ## Steps and runs -/

theorem disconnect_eq_ok_iff {b b' : PortBridge γ} {id : Nat} {client : γ} :
    b.disconnect id = .ok (client, b') ↔
      ∃ c, b.connections.get? id = some c ∧ client = c.client ∧ b' = { b with
        connections := b.connections.erase id, bases := b.bases.erase c.base.toNat } := by
  unfold PortBridge.disconnect
  cases b.connections.get? id with
  | none => simp
  | some c => simp [eq_comm]

theorem disconnect_eq_error_iff {b : PortBridge γ} {id : Nat} {e : BridgeError} :
    b.disconnect id = .error e ↔ b.connections.get? id = none ∧ e = .notConnected id := by
  unfold PortBridge.disconnect
  cases b.connections.get? id with
  | none => simp [eq_comm]
  | some c => simp

theorem Sound.disconnect {b b' : PortBridge γ} (h : b.Sound) {id : Nat} {client : γ}
    (hd : b.disconnect id = .ok (client, b')) : b'.Sound := by
  obtain ⟨c, hc, -, rfl⟩ := disconnect_eq_ok_iff.1 hd
  exact h.detach hc

/-- The bridge after an access to a port, in which `f` reaches the client that owns the port
at the distance of the port from the start of its range. -/
def access (b : PortBridge γ) (f : γ → UInt16 → γ) (port : UInt16) : PortBridge γ :=
  match b.route? port with
  | some (id, c) => b.setClient id c (f c.client (port - c.base))
  | none => b

theorem Sound.access {b : PortBridge γ} (h : b.Sound) (f : γ → UInt16 → γ) (port : UInt16) :
    (b.access f port).Sound := by
  unfold PortBridge.access
  split
  · rename_i id c hr
    obtain ⟨hc, -⟩ := h.holds_of_route? hr
    exact h.of_changes (changes_setClient hc _) (by rw [hc]; rfl)
  · exact h

variable [PortClient γ]

theorem toNat_requiredPorts_pos {client : γ} (hports : PortClient.requiredPorts client ≠ 0) :
    0 < (PortClient.requiredPorts client).toNat := by
  rw [Nat.pos_iff_ne_zero]
  intro h0
  exact hports (UInt16.toNat_inj.1 h0)

/-- A client that is connected gets a range that was free. -/
theorem Sound.connect {b b' : PortBridge γ} (h : b.Sound) {client : γ} {r : Nat × UInt16}
    (hc : b.connect client = .ok (r, b')) : b'.Sound := by
  unfold PortBridge.connect at hc
  simp only at hc
  split at hc
  · cases hc
  · rename_i hports
    have hpos := toNat_requiredPorts_pos hports
    split at hc
    · rename_i hfree
      cases hc
      exact h.attach hpos hfree
    · split at hc
      · split at hc
        · rename_i base hf
          cases hc
          exact h.attach hpos (h.isFree_of_findFree? hpos hf)
        · cases hc
      · cases hc

section Steps

variable {b b' : PortBridge γ} {client : γ} {id : Nat} {base : UInt16} {e : BridgeError}

theorem after_of_connect (hc : b.connect client = .ok ((id, base), b')) :
    b.after (.connect client) = b' := by
  unfold PortBridge.after
  simp only [hc]

theorem after_of_connect_eq_error (hc : b.connect client = .error e) :
    b.after (.connect client) = b := by
  unfold PortBridge.after
  simp only [hc]

theorem after_of_disconnect (hd : b.disconnect id = .ok (client, b')) :
    b.after (.disconnect id) = b' := by
  unfold PortBridge.after
  simp only [hd]

theorem after_of_disconnect_eq_error (hd : b.disconnect id = .error e) :
    b.after (.disconnect id) = b := by
  unfold PortBridge.after
  simp only [hd]

/-- The read of a port is an access to its owner. -/
theorem after_input (port : UInt16) : b.after (.input port) =
    b.access (fun client offset => (PortClient.read client offset).2) port := by
  unfold access
  cases hr : b.route? port with
  | none => exact congrArg Prod.snd (input_of_free hr)
  | some r => exact congrArg Prod.snd (input_of_route? hr)

/-- And so is the write to a port. -/
theorem after_output (port value : UInt16) : b.after (.output port value) =
    b.access (fun client offset => PortClient.write client offset value) port := by
  unfold access
  cases hr : b.route? port with
  | none => exact output_of_free hr
  | some r => exact output_of_route? hr

/-- Every request keeps the ranges apart and the index right. -/
theorem Sound.after (h : b.Sound) (request : Request γ) : (b.after request).Sound := by
  cases request with
  | connect client =>
    cases hc : b.connect client with
    | error e =>
      rw [after_of_connect_eq_error hc]
      exact h
    | ok r =>
      rw [after_of_connect hc]
      exact h.connect hc
  | disconnect id =>
    cases hd : b.disconnect id with
    | error e =>
      rw [after_of_disconnect_eq_error hd]
      exact h
    | ok r =>
      rw [after_of_disconnect hd]
      exact h.disconnect hd
  | input port =>
    rw [after_input]
    exact h.access _ port
  | output port value =>
    rw [after_output]
    exact h.access _ port

end Steps

theorem Sound.foldl_after {b : PortBridge γ} (h : b.Sound) (requests : List (Request γ)) :
    (requests.foldl PortBridge.after b).Sound := by
  induction requests generalizing b with
  | nil => exact h
  | cons request requests ih => exact ih (h.after request)

theorem sound_ofRequests (requests : List (Request γ)) : (ofRequests requests).Sound :=
  sound_empty.foldl_after requests

end PortBridge

/-- After any requests the ranges of the clients lie apart within the ports, the index has
an entry for each of them, and every port is served by the client that owns it. -/
theorem every_port_is_served_by_its_owner {γ : Type} [PortClient γ]
    (requests : List (PortBridge.Request γ)) :
    (PortBridge.ofRequests requests).Sound ∧
      ∀ port, (PortBridge.ofRequests requests).Serves port := by
  have h := PortBridge.sound_ofRequests requests
  exact ⟨h, h.serves⟩

/-- A bank of registers that notes where it was moved to. -/
structure RegisterBank where
  values : List UInt16
  preferredBase : UInt16
  canRelocate : Bool
  moves : List UInt16
  deriving DecidableEq, Repr

instance : PortClient RegisterBank where
  requiredPorts r := UInt16.ofNat r.values.length
  preferredBase r := r.preferredBase
  canRelocate r := r.canRelocate
  relocated r base := { r with moves := r.moves ++ [base] }
  read r offset := (r.values.getD offset.toNat 0, r)
  write r offset value := { r with values := r.values.set offset.toNat value }

/-- Two banks with a port between them, which belongs to neither. A value that is sent to the
last port goes into the second register of the second bank. -/
example :
    let b : PortBridge RegisterBank := .ofRequests
      [.connect ⟨[1, 2], 0, false, []⟩, .connect ⟨[3, 4], 3, false, []⟩, .output 4 9]
    b.size = 2 ∧ [0, 1, 2, 3, 4].map (fun port => (Device.input b port).1) = [1, 2, 0, 3, 9] := by
  decide

end WordMachine
