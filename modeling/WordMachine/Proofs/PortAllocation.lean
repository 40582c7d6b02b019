-- The allocation of ports. A client gets its preferred range if that is free, and else, if
-- it can move, the lowest free range that is large enough: the pass over the connected
-- ranges in order misses no gap.
import WordMachine.Proofs.PortRouting

namespace WordMachine.PortBridge

variable {γ : Type}

/-! ## Vacant ranges -/

/-- The range lies within the ports, and none of its ports is a client's. -/
def Vacant (b : PortBridge γ) (base ports : Nat) : Prop :=
  base + ports ≤ portCount ∧ ∀ id c, b.connections.get? id = some c →
    ∀ port : UInt16, base ≤ port.toNat → port.toNat < base + ports → ¬ c.Holds port

/-- The range is vacant, and no vacant one of this size starts below it. -/
def Lowest (b : PortBridge γ) (base ports : Nat) : Prop :=
  b.Vacant base ports ∧ ∀ start, b.Vacant start ports → base ≤ start

/-- A range is free just if it is vacant: two ranges that overlap have a port in common. -/
theorem Sound.isFree_iff_vacant {b : PortBridge γ} (h : b.Sound) {base ports : Nat}
    (hpos : 0 < ports) : b.isFree base ports = true ↔ b.Vacant base ports := by
  rw [isFree_iff]
  refine and_congr_right fun hle => forall₃_congr fun id c hc => ?_
  have hp := h.ports_pos id c hc
  have hin := h.inside id c hc
  have hfinish : c.finish = c.base.toNat + c.ports.toNat := rfl
  constructor
  · rintro hmeets port hlow hhigh ⟨hbase, hlt⟩
    omega
  · intro hmeets
    apply Decidable.byContradiction
    intro hover
    -- The later of the two starts lies in both ranges.
    have hport : (UInt16.ofNat (max base c.base.toNat)).toNat = max base c.base.toNat := by
      apply UInt16.toNat_ofNat_of_lt'
      simp only [portCount] at hin
      simp only [UInt16.size]
      omega
    refine hmeets (UInt16.ofNat (max base c.base.toNat)) ?_ ?_ ⟨?_, ?_⟩ <;> omega

/-- Every start from the candidate on that the connections leave free is a bound: a
connection that is passed ends at or before it. -/
theorem firstGap_le {ports candidate start : Nat} {cs : List (Connection γ)}
    (hc : candidate ≤ start)
    (hfree : ∀ c ∈ cs, c.finish ≤ start ∨ start + ports ≤ c.base.toNat) :
    firstGap ports candidate cs ≤ start := by
  induction cs generalizing candidate with
  | nil => exact hc
  | cons c cs ih =>
    obtain ⟨hmeets, hfree⟩ := List.forall_mem_cons.1 hfree
    unfold firstGap
    split
    · exact hc
    · refine ih ?_ hfree
      omega

theorem Sound.firstGap_le_of_vacant {b : PortBridge γ} (h : b.Sound) {start ports : Nat}
    (hpos : 0 < ports) (hv : b.Vacant start ports) : firstGap ports 0 b.byBase ≤ start := by
  refine firstGap_le (Nat.zero_le start) fun c hc => ?_
  obtain ⟨id, hid⟩ := h.mem_byBase.1 hc
  exact (isFree_iff.1 ((h.isFree_iff_vacant hpos).2 hv)).2 id c hid

theorem Sound.lowest_of_findFree? {b : PortBridge γ} (h : b.Sound) {ports : Nat} {base : UInt16}
    (hpos : 0 < ports) (hf : b.findFree? ports = some base) : b.Lowest base.toNat ports := by
  refine ⟨(h.isFree_iff_vacant hpos).1 (h.isFree_of_findFree? hpos hf), fun start hv => ?_⟩
  rw [(toNat_of_findFree? hpos hf).1]
  exact h.firstGap_le_of_vacant hpos hv

theorem Sound.findFree?_eq_none_iff {b : PortBridge γ} (h : b.Sound) {ports : Nat}
    (hpos : 0 < ports) : b.findFree? ports = none ↔ ∀ start, ¬ b.Vacant start ports := by
  constructor
  · intro hf start hv
    have hgap := h.firstGap_le_of_vacant hpos hv
    have hle := hv.1
    have hfit : firstGap ports 0 b.byBase + ports ≤ portCount := by omega
    unfold findFree? at hf
    simp only [if_pos hfit, reduceCtorEq] at hf
  · intro hv
    cases hf : b.findFree? ports with
    | none => rfl
    | some base => exact absurd (h.lowest_of_findFree? hpos hf).1 (hv base.toNat)

theorem Sound.findFree?_eq_some_iff {b : PortBridge γ} (h : b.Sound) {ports : Nat}
    {base : UInt16} (hpos : 0 < ports) :
    b.findFree? ports = some base ↔ b.Lowest base.toNat ports := by
  refine ⟨h.lowest_of_findFree? hpos, fun hlow => ?_⟩
  cases hf : b.findFree? ports with
  | none => exact absurd hlow.1 ((h.findFree?_eq_none_iff hpos).1 hf _)
  | some other =>
    obtain ⟨hv, hleast⟩ := h.lowest_of_findFree? hpos hf
    have heq : other.toNat = base.toNat := Nat.le_antisymm (hleast _ hlow.1) (hlow.2 _ hv)
    rw [UInt16.toNat_inj.1 heq]

/-! ## Allotted ranges -/

section Clients

variable [PortClient γ]

/-- A client with the range that starts at `base`. Only if it prefers another start, it is
told this one, once. -/
def allotted (client : γ) (base : UInt16) : Connection γ where
  base
  ports := PortClient.requiredPorts client
  client := if base = PortClient.preferredBase client then client
    else PortClient.relocated client base

/-- The range that the client would like to have is vacant. -/
def PrefersVacant (b : PortBridge γ) (client : γ) : Prop :=
  b.Vacant (PortClient.preferredBase client).toNat (PortClient.requiredPorts client).toNat

/-- What a bridge has to answer a client: the start of its range, or why it gets none. -/
inductive Allots (b : PortBridge γ) (client : γ) : Except BridgeError UInt16 → Prop
  | noPorts (hports : PortClient.requiredPorts client = 0) : Allots b client (.error .noPorts)
  | preferred (hports : PortClient.requiredPorts client ≠ 0) (hv : b.PrefersVacant client) :
    Allots b client (.ok (PortClient.preferredBase client))
  | lowest {base : UInt16} (hports : PortClient.requiredPorts client ≠ 0)
    (hv : ¬ b.PrefersVacant client) (hmove : PortClient.canRelocate client = true)
    (hlow : b.Lowest base.toNat (PortClient.requiredPorts client).toNat) :
    Allots b client (.ok base)
  | exhausted (hports : PortClient.requiredPorts client ≠ 0)
    (hv : ¬ b.PrefersVacant client) (hmove : PortClient.canRelocate client = true)
    (hfull : ∀ start, ¬ b.Vacant start (PortClient.requiredPorts client).toNat) :
    Allots b client (.error (.exhausted (PortClient.requiredPorts client)))
  | unavailable (hports : PortClient.requiredPorts client ≠ 0)
    (hv : ¬ b.PrefersVacant client) (hmove : PortClient.canRelocate client = false) :
    Allots b client (.error
      (.unavailable (PortClient.preferredBase client) (PortClient.requiredPorts client)))

variable {b : PortBridge γ} {client : γ}

theorem Sound.isFree_iff_prefersVacant (h : b.Sound)
    (hports : PortClient.requiredPorts client ≠ 0) :
    b.isFree (PortClient.preferredBase client).toNat (PortClient.requiredPorts client).toNat = true ↔
      b.PrefersVacant client :=
  h.isFree_iff_vacant (toNat_requiredPorts_pos hports)

/-- The lowest range is not the preferred one, which would be vacant then. -/
theorem ne_preferredBase_of_lowest {base : UInt16} (hv : ¬ b.PrefersVacant client)
    (hlow : b.Lowest base.toNat (PortClient.requiredPorts client).toNat) :
    base ≠ PortClient.preferredBase client := by
  rintro rfl
  exact hv hlow.1

theorem Allots.vacant {base : UInt16} (ha : b.Allots client (.ok base)) :
    PortClient.requiredPorts client ≠ 0 ∧
      b.Vacant base.toNat (PortClient.requiredPorts client).toNat := by
  cases ha with
  | preferred hports hv => exact ⟨hports, hv⟩
  | lowest hports hv hmove hlow => exact ⟨hports, hlow.1⟩

/-- The answer depends on no more than which ranges are vacant. -/
theorem Allots.of_vacant_iff {b' : PortBridge γ} {answer : Except BridgeError UInt16}
    (ha : b.Allots client answer)
    (hv : ∀ base ports, b'.Vacant base ports ↔ b.Vacant base ports) :
    b'.Allots client answer := by
  have hlowest : ∀ base ports, b'.Lowest base ports ↔ b.Lowest base ports := by
    intro base ports
    unfold Lowest
    simp only [hv]
  have hprefers : b'.PrefersVacant client ↔ b.PrefersVacant client := hv _ _
  cases ha with
  | noPorts hports => exact .noPorts hports
  | preferred hports hp => exact .preferred hports (hprefers.2 hp)
  | lowest hports hp hmove hlow =>
    exact .lowest hports (mt hprefers.1 hp) hmove ((hlowest _ _).2 hlow)
  | exhausted hports hp hmove hfull =>
    exact .exhausted hports (mt hprefers.1 hp) hmove fun start => mt (hv _ _).1 (hfull start)
  | unavailable hports hp hmove => exact .unavailable hports (mt hprefers.1 hp) hmove

/-- The bridge gives the answer that it has to give. -/
theorem Sound.connect_of_allots (h : b.Sound) {answer : Except BridgeError UInt16}
    (ha : b.Allots client answer) : b.connect client =
      answer.map fun base => ((b.nextId, base), b.attach (allotted client base)) := by
  unfold PortBridge.connect
  cases ha with
  | noPorts hports => exact if_pos hports
  | preferred hports hv =>
    have hfree := (h.isFree_iff_prefersVacant hports).2 hv
    simp only [if_neg hports, if_pos hfree, Except.map, allotted, if_true]
  | lowest hports hv hmove hlow =>
    have hpos := toNat_requiredPorts_pos hports
    have hfree := mt (h.isFree_iff_prefersVacant hports).1 hv
    simp only [if_neg hports, if_neg hfree, if_pos hmove, (h.findFree?_eq_some_iff hpos).2 hlow,
      Except.map, allotted, if_neg (ne_preferredBase_of_lowest hv hlow)]
  | exhausted hports hv hmove hfull =>
    have hpos := toNat_requiredPorts_pos hports
    have hfree := mt (h.isFree_iff_prefersVacant hports).1 hv
    simp only [if_neg hports, if_neg hfree, if_pos hmove, (h.findFree?_eq_none_iff hpos).2 hfull,
      Except.map]
  | unavailable hports hv hmove =>
    have hfree := mt (h.isFree_iff_prefersVacant hports).1 hv
    simp only [if_neg hports, if_neg hfree, hmove, Bool.false_eq_true, if_false, Except.map]

/-- A bridge has an answer to every client. -/
theorem Sound.exists_allots (h : b.Sound) (client : γ) : ∃ answer, b.Allots client answer := by
  by_cases hports : PortClient.requiredPorts client = 0
  · exact ⟨_, .noPorts hports⟩
  have hpos := toNat_requiredPorts_pos hports
  by_cases hv : b.PrefersVacant client
  · exact ⟨_, .preferred hports hv⟩
  cases hmove : PortClient.canRelocate client with
  | false => exact ⟨_, .unavailable hports hv hmove⟩
  | true =>
    cases hf : b.findFree? (PortClient.requiredPorts client).toNat with
    | some base => exact ⟨_, .lowest hports hv hmove ((h.findFree?_eq_some_iff hpos).1 hf)⟩
    | none => exact ⟨_, .exhausted hports hv hmove ((h.findFree?_eq_none_iff hpos).1 hf)⟩

theorem Sound.connect_eq_ok_iff (h : b.Sound) {id : Nat} {base : UInt16} {b' : PortBridge γ} :
    b.connect client = .ok ((id, base), b') ↔
      b.Allots client (.ok base) ∧ id = b.nextId ∧ b' = b.attach (allotted client base) := by
  constructor
  · intro hc
    obtain ⟨answer, ha⟩ := h.exists_allots client
    have hanswer := h.connect_of_allots ha
    rw [hc] at hanswer
    cases answer with
    | error e => cases hanswer
    | ok other =>
      cases hanswer
      exact ⟨ha, rfl, rfl⟩
  · rintro ⟨ha, rfl, rfl⟩
    exact h.connect_of_allots ha

theorem Sound.connect_eq_error_iff (h : b.Sound) {e : BridgeError} :
    b.connect client = .error e ↔ b.Allots client (.error e) := by
  constructor
  · intro hc
    obtain ⟨answer, ha⟩ := h.exists_allots client
    have hanswer := h.connect_of_allots ha
    rw [hc] at hanswer
    cases answer with
    | error e' =>
      cases hanswer
      exact ha
    | ok base => cases hanswer
  · exact h.connect_of_allots

end Clients

end WordMachine.PortBridge

namespace WordMachine

/-- After any requests a client is connected just if it has to be, at the start that it has
to get: the preferred one, or else the lowest one. It gets the next number, and it is told
its start just if it prefers another one. It is refused just for the reason that it has to
be, and a refused client changes nothing. -/
theorem a_client_gets_the_preferred_or_the_lowest_range {γ : Type} [PortClient γ]
    (requests : List (PortBridge.Request γ)) (client : γ) :
    (∀ id base b', (PortBridge.ofRequests requests).connect client = .ok ((id, base), b') ↔
      (PortBridge.ofRequests requests).Allots client (.ok base) ∧
        id = (PortBridge.ofRequests requests).nextId ∧
        b' = (PortBridge.ofRequests requests).attach (PortBridge.allotted client base)) ∧
    (∀ e, (PortBridge.ofRequests requests).connect client = .error e ↔
      (PortBridge.ofRequests requests).Allots client (.error e)) ∧
    (∀ e, (PortBridge.ofRequests requests).Allots client (.error e) →
      (PortBridge.ofRequests requests).after (.connect client) =
        PortBridge.ofRequests requests) := by
  have h := PortBridge.sound_ofRequests requests
  refine ⟨fun id base b' => h.connect_eq_ok_iff, fun e => h.connect_eq_error_iff, fun e he => ?_⟩
  exact PortBridge.after_of_connect_eq_error (h.connect_eq_error_iff.2 he)

/-- Two banks with a gap of three ports between them. -/
def twoBanks : List (PortBridge.Request RegisterBank) :=
  [.connect ⟨[0, 0], 0, false, []⟩, .connect ⟨[0, 0], 5, false, []⟩]

/-- A bank that starts anywhere, but has no room at the first port. -/
def threeRegisters : RegisterBank := ⟨[0, 0, 0], 0, true, []⟩

theorem a_gap_of_three_ports_is_filled :
    (PortBridge.ofRequests twoBanks).Allots threeRegisters (.ok 2) ∧
      ((PortBridge.ofRequests twoBanks).after (.connect threeRegisters)).connections.get? 2 =
        some ⟨2, 3, { threeRegisters with moves := [2] }⟩ ∧
      (PortBridge.ofRequests twoBanks).after (.connect ⟨[0, 0], 4, false, []⟩) =
        PortBridge.ofRequests twoBanks := by
  obtain ⟨hok, -, -⟩ := a_client_gets_the_preferred_or_the_lowest_range twoBanks threeRegisters
  obtain ⟨-, herror, hunchanged⟩ := a_client_gets_the_preferred_or_the_lowest_range twoBanks
    ⟨[0, 0], 4, false, []⟩
  have hmoved : (PortBridge.ofRequests twoBanks).connect threeRegisters =
    .ok ((2, 2), (PortBridge.ofRequests twoBanks).attach ⟨2, 3, ⟨[0, 0, 0], 0, true, [2]⟩⟩) := rfl
  have hrefused : (PortBridge.ofRequests twoBanks).connect ⟨[0, 0], 4, false, []⟩ =
    .error (.unavailable 4 2) := rfl
  exact ⟨((hok 2 2 _).1 hmoved).1, rfl, hunchanged _ ((herror _).1 hrefused)⟩

end WordMachine
