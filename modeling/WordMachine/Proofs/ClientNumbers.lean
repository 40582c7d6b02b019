-- The numbers of clients. A number is handed out once, and it gives back the client that it
-- was handed out for. A client that has come and gone leaves nothing behind but its number:
-- a bridge goes on as it would have without it, with the later numbers one higher.
import WordMachine.Proofs.PortHistories

namespace WordMachine.PortBridge

variable {γ : Type} {b b' : PortBridge γ}

/-! ## Numbers without one of them -/

/-- What the number `k` is called where the number `id` was handed out before. -/
def shiftNumber (id k : Nat) : Nat := if k < id then k else k + 1

theorem shiftNumber_inj {id j k : Nat} : shiftNumber id j = shiftNumber id k ↔ j = k := by
  unfold shiftNumber
  split <;> split <;> omega

theorem shiftNumber_ne {id k : Nat} : shiftNumber id k ≠ id := by
  unfold shiftNumber
  split <;> omega

theorem shiftNumber_succ {id k : Nat} (h : id ≤ k) : shiftNumber id (k + 1) = shiftNumber id k + 1 := by
  unfold shiftNumber
  rw [if_neg (by omega), if_neg (by omega)]

/-- The request with its numbers as they are called there. -/
def Request.shift (id : Nat) : Request γ → Request γ
  | .disconnect k => .disconnect (shiftNumber id k)
  | .connect client => .connect client
  | .input port => .input port
  | .output port value => .output port value

/-- The request where the number `id` was not handed out. There it cannot be given back. -/
def Request.unshift (id : Nat) : Request γ → Option (Request γ)
  | .disconnect k =>
    if k = id then none else some (.disconnect (if k < id then k else k - 1))
  | .connect client => some (.connect client)
  | .input port => some (.input port)
  | .output port value => some (.output port value)

/-- The error with its number as it is called there. -/
def shiftError (id : Nat) : BridgeError → BridgeError
  | .notConnected k => .notConnected (shiftNumber id k)
  | .noPorts => .noPorts
  | .unavailable base ports => .unavailable base ports
  | .exhausted ports => .exhausted ports

/-- The answer with its numbers as they are called there. -/
def Answer.shift (id : Nat) : Answer γ → Answer γ
  | .connected k base => .connected (shiftNumber id k) base
  | .refused e => .refused (shiftError id e)
  | .returned client => .returned client
  | .value word => .value word
  | .written => .written

theorem Answer.id?_shift (id : Nat) (answer : Answer γ) :
    (answer.shift id).id? = answer.id?.map (shiftNumber id) := by
  cases answer <;> rfl

theorem Request.shift_eq_connect_iff {id : Nat} {request : Request γ} {client : γ} :
    request.shift id = .connect client ↔ request = .connect client := by
  cases request <;> simp [Request.shift]

theorem Request.shift_eq_disconnect_iff {id k : Nat} {request : Request γ} :
    request.shift id = .disconnect (shiftNumber id k) ↔ request = .disconnect k := by
  cases request <;> simp [Request.shift, shiftNumber_inj]

theorem Request.of_unshift_eq_none {id : Nat} {request : Request γ}
    (h : request.unshift id = none) : request = .disconnect id := by
  cases request with
  | disconnect k => simpa [Request.unshift] using h
  | connect client => cases h
  | input port => cases h
  | output port value => cases h

theorem Request.of_unshift_eq_some {id : Nat} {request other : Request γ}
    (h : request.unshift id = some other) : request = other.shift id := by
  cases request with
  | disconnect k =>
    simp only [Request.unshift, Option.ite_none_left_eq_some, Option.some.injEq] at h
    obtain ⟨hk, rfl⟩ := h
    simp only [Request.shift, Request.disconnect.injEq]
    unfold shiftNumber
    split
    · rfl
    · rw [if_neg (by omega)]
      omega
  | connect client =>
    cases h
    rfl
  | input port =>
    cases h
    rfl
  | output port value =>
    cases h
    rfl

theorem Answer.shift_eq_connected_iff {id k : Nat} {base : UInt16} {answer : Answer γ} :
    answer.shift id = .connected k base ↔
      ∃ j, k = shiftNumber id j ∧ answer = .connected j base := by
  cases answer <;> simp [Answer.shift, eq_comm]

theorem after_shift [PortClient γ] (id : Nat) (request : Request γ) (c : Connection γ) :
    c.after (request.shift id) = c.after request := by
  cases request <;> rfl

/-- The same clients are connected in both bridges, in `b'` by the numbers without `id`. -/
structure Shifted (id : Nat) (b b' : PortBridge γ) : Prop where
  get?_iff : ∀ k c, b'.connections.get? k = some c ↔
    ∃ j, k = shiftNumber id j ∧ b.connections.get? j = some c
  nextId_eq : b'.nextId = shiftNumber id b.nextId
  le_nextId : id ≤ b.nextId

namespace Shifted

variable {id : Nat}

theorem get?_shift (h : Shifted id b b') (k : Nat) :
    b'.connections.get? (shiftNumber id k) = b.connections.get? k := by
  ext c
  rw [h.get?_iff]
  constructor
  · rintro ⟨j, hj, hc⟩
    exact shiftNumber_inj.1 hj ▸ hc
  · intro hc
    exact ⟨k, rfl, hc⟩

theorem vacant_iff (h : Shifted id b b') (base ports : Nat) :
    b'.Vacant base ports ↔ b.Vacant base ports := by
  unfold Vacant
  refine and_congr_right fun _ => ⟨fun hv k c hc => ?_, fun hv k c hc => ?_⟩
  · exact hv (shiftNumber id k) c (by rw [h.get?_shift, hc])
  · obtain ⟨j, -, hj⟩ := (h.get?_iff k c).1 hc
    exact hv j c hj

/-- A port is routed to the same client, by its number there. -/
theorem route?_eq (h : Shifted id b b') (hb : b.Sound) (hb' : b'.Sound) (port : UInt16) :
    b'.route? port = (b.route? port).map fun r => (shiftNumber id r.1, r.2) := by
  cases hr : b.route? port with
  | some r =>
    obtain ⟨k, c⟩ := r
    obtain ⟨hc, hp⟩ := hb.holds_of_route? hr
    exact hb'.route?_of_holds (by rw [h.get?_shift, hc]) hp
  | none =>
    cases hr' : b'.route? port with
    | none => rfl
    | some r =>
      obtain ⟨k, c⟩ := r
      obtain ⟨hc, hp⟩ := hb'.holds_of_route? hr'
      obtain ⟨j, -, hj⟩ := (h.get?_iff k c).1 hc
      rw [hb.route?_of_holds hj hp] at hr
      cases hr

variable [PortClient γ]

theorem answer_connect (h : Shifted id b b') (hb : b.Sound) (hb' : b'.Sound) (client : γ) :
    b'.answer (.connect client) = (b.answer (.connect client)).shift id := by
  obtain ⟨answer, ha⟩ := hb.exists_allots client
  have hc := hb.connect_of_allots ha
  have hc' := hb'.connect_of_allots (ha.of_vacant_iff h.vacant_iff)
  cases answer with
  | ok base =>
    rw [answer_of_connect hc, answer_of_connect hc', h.nextId_eq]
    rfl
  | error e =>
    rw [answer_of_connect_eq_error hc, answer_of_connect_eq_error hc']
    cases ha <;> rfl

theorem answer_disconnect (h : Shifted id b b') (k : Nat) :
    b'.answer (.disconnect (shiftNumber id k)) = (b.answer (.disconnect k)).shift id := by
  have hget := h.get?_shift k
  cases hc : b.connections.get? k with
  | none =>
    rw [hc] at hget
    rw [answer_of_disconnect_eq_error (disconnect_eq_error_iff.2 ⟨hc, rfl⟩),
      answer_of_disconnect_eq_error (disconnect_eq_error_iff.2 ⟨hget, rfl⟩)]
    rfl
  | some c =>
    rw [hc] at hget
    rw [answer_of_disconnect (disconnect_eq_ok_iff.2 ⟨c, hc, rfl, rfl⟩),
      answer_of_disconnect (disconnect_eq_ok_iff.2 ⟨c, hget, rfl, rfl⟩)]
    rfl

theorem answer_input (h : Shifted id b b') (hb : b.Sound) (hb' : b'.Sound) (port : UInt16) :
    b'.answer (.input port) = (b.answer (.input port)).shift id := by
  have hroute := h.route?_eq hb hb' port
  have hvalue : (Device.input b' port).1 = (Device.input b port).1 := by
    cases hr : b.route? port with
    | none =>
      rw [hr] at hroute
      rw [input_of_free hr, input_of_free hroute]
    | some r =>
      rw [hr] at hroute
      rw [input_of_route? hr, input_of_route? hroute]
  exact congrArg Answer.value hvalue

/-- The answers are the same. -/
theorem answer_eq (h : Shifted id b b') (hb : b.Sound) (hb' : b'.Sound)
    (request : Request γ) :
    b'.answer (request.shift id) = (b.answer request).shift id := by
  cases request with
  | connect client => exact h.answer_connect hb hb' client
  | disconnect k => exact h.answer_disconnect k
  | input port => exact h.answer_input hb hb' port
  | output port value => rfl

theorem get?_after (h : Shifted id b b') (hb : b.Sound) (hb' : b'.Sound) (request : Request γ)
    (k : Nat) (c : Connection γ) :
    (b'.after (request.shift id)).connections.get? k = some c ↔
      ∃ j, k = shiftNumber id j ∧ (b.after request).connections.get? j = some c := by
  simp only [hb.get?_after, hb'.get?_after, h.answer_eq hb hb' request, h.get?_iff, after_shift,
    Request.shift_eq_connect_iff, Answer.shift_eq_connected_iff]
  constructor
  · rintro (⟨client, base, hr, ⟨j, rfl, hanswer⟩, rfl⟩ | ⟨hne, d, ⟨j, rfl, hd⟩, rfl⟩)
    · exact ⟨j, rfl, .inl ⟨client, base, hr, hanswer, rfl⟩⟩
    · exact ⟨j, rfl, .inr ⟨mt Request.shift_eq_disconnect_iff.2 hne, d, hd, rfl⟩⟩
  · rintro ⟨j, rfl, ⟨client, base, hr, hanswer, rfl⟩ | ⟨hne, d, hd, rfl⟩⟩
    · exact .inl ⟨client, base, hr, ⟨j, rfl, hanswer⟩, rfl⟩
    · exact .inr ⟨mt Request.shift_eq_disconnect_iff.1 hne, d, ⟨j, rfl, hd⟩, rfl⟩

/-- The clients are the same after the request as well. -/
theorem after (h : Shifted id b b') (hb : b.Sound) (hb' : b'.Sound) (request : Request γ) :
    Shifted id (b.after request) (b'.after (request.shift id)) := by
  have hid : (b'.answer (request.shift id)).id? =
      (b.answer request).id?.map (shiftNumber id) := by
    rw [h.answer_eq hb hb', Answer.id?_shift]
  have hle := h.le_nextId
  rcases hb.nextId_after request with ⟨hsome, hnext⟩ | ⟨hnone, hnext⟩
  · rw [hsome] at hid
    rcases hb'.nextId_after (request.shift id) with ⟨-, hnext'⟩ | ⟨hnone', -⟩
    · refine ⟨h.get?_after hb hb' request, ?_, by omega⟩
      rw [hnext, hnext', h.nextId_eq, shiftNumber_succ hle]
    · rw [hnone'] at hid
      cases hid
  · rw [hnone] at hid
    rcases hb'.nextId_after (request.shift id) with ⟨hsome', -⟩ | ⟨-, hnext'⟩
    · rw [hsome'] at hid
      cases hid
    · refine ⟨h.get?_after hb hb' request, ?_, by omega⟩
      rw [hnext, hnext', h.nextId_eq]

/-- The number `id` itself gives nothing back. -/
theorem after_disconnect (h : Shifted id b b') : b'.after (.disconnect id) = b' := by
  have hnone : b'.connections.get? id = none := by
    cases hc : b'.connections.get? id with
    | none => rfl
    | some c =>
      obtain ⟨j, hj, -⟩ := (h.get?_iff id c).1 hc
      exact absurd hj.symm shiftNumber_ne
  exact after_of_disconnect_eq_error (disconnect_eq_error_iff.2 ⟨hnone, rfl⟩)

/-- The clients are the same after any requests, of which those that disconnect `id` itself
have no counterpart. -/
theorem foldl_after (h : Shifted id b b') (hb : b.Sound) (hb' : b'.Sound)
    (requests : List (Request γ)) :
    Shifted id ((requests.filterMap (·.unshift id)).foldl PortBridge.after b)
      (requests.foldl PortBridge.after b') := by
  induction requests generalizing b b' with
  | nil => exact h
  | cons request requests ih =>
    cases hu : request.unshift id with
    | none =>
      rw [List.filterMap_cons_none hu, List.foldl_cons, Request.of_unshift_eq_none hu,
        h.after_disconnect]
      exact ih h hb hb'
    | some other =>
      rw [List.filterMap_cons_some hu, List.foldl_cons, List.foldl_cons,
        Request.of_unshift_eq_some hu]
      exact ih (h.after hb hb' other) (hb.after other) (hb'.after _)

end Shifted

/-! ## Clients that have come and gone -/

/-- The number is used up, and nothing else has changed. -/
theorem Sound.shifted (h : b.Sound) : Shifted b.nextId b { b with nextId := b.nextId + 1 } := by
  have hnumber : ∀ k, k < b.nextId → shiftNumber b.nextId k = k := fun k hk => if_pos hk
  refine ⟨fun k c => ⟨fun hc => ?_, ?_⟩, ?_, Nat.le_refl _⟩
  · exact ⟨k, (hnumber k (h.id_lt k c hc)).symm, hc⟩
  · rintro ⟨j, rfl, hc⟩
    rw [hnumber j (h.id_lt j c hc)]
    exact hc
  · exact (if_neg (Nat.lt_irrefl _)).symm

theorem Sound.of_nextId_le (h : b.Sound) {next : Nat} (hle : b.nextId ≤ next) :
    ({ b with nextId := next } : PortBridge γ).Sound :=
  ⟨h.ports_pos, h.inside, h.apart, h.bases_iff,
    fun id c hc => Nat.lt_of_lt_of_le (h.id_lt id c hc) hle⟩

variable [PortClient γ]

/-- A client that leaves at once is given back as it was connected, and both maps are as
they were: no entry of another client has its number or its start. -/
theorem Sound.disconnect_of_connect (h : b.Sound) {client : γ} {id : Nat} {base : UInt16}
    (hc : b.connect client = .ok ((id, base), b')) : b'.disconnect id =
      .ok ((allotted client base).client, { b with nextId := b.nextId + 1 }) := by
  obtain ⟨ha, rfl, rfl⟩ := h.connect_eq_ok_iff.1 hc
  obtain ⟨hports, hv⟩ := ha.vacant
  have hpos := toNat_requiredPorts_pos hports
  have hfree := (h.isFree_iff_vacant hpos).2 hv
  have hnumber : b.connections.get? b.nextId = none := by
    cases hd : b.connections.get? b.nextId with
    | none => rfl
    | some d => exact absurd (h.id_lt _ d hd) (Nat.lt_irrefl _)
  have hstart : b.bases.get? base.toNat = none := by
    cases hi : b.bases.get? base.toNat with
    | none => rfl
    | some i =>
      obtain ⟨d, hd, hdb⟩ := (h.bases_iff _ i).1 hi
      exact absurd hdb (h.base_ne_of_isFree hpos hfree hd)
  refine disconnect_eq_ok_iff.2 ⟨allotted client base, get?_attach.2 (.inl ⟨rfl, rfl⟩), rfl, ?_⟩
  have hbase : (allotted client base).base = base := rfl
  unfold PortBridge.attach
  simp only [hbase, AddressMap.erase_insert hnumber, AddressMap.erase_insert hstart]

end WordMachine.PortBridge

namespace WordMachine

open PortBridge (Request Answer StaysConnected allotted ofRequests)

/-- Whatever the requests to a bridge are, no number is handed out twice. A number gives back
a client just if it was handed out for it and has not been used for this since, and the client
is then in the state to which the reads and writes at its ports have brought it; if a number
gives back no client, nothing changes. And a client that is connected and disconnected leaves
nothing but its number behind: each port is routed as before, and after any later requests,
each request has the answer that it would have had otherwise, with the numbers that are handed
out later one higher. -/
theorem a_number_gives_back_the_client_that_got_it {γ : Type} [PortClient γ]
    (requests : List (Request γ)) :
    ((PortBridge.empty.answers requests).filterMap Answer.id?).Nodup ∧
    (∀ id client, (∃ b', (ofRequests requests).disconnect id = .ok (client, b')) ↔
      ∃ c, StaysConnected requests id c ∧ c.client = client) ∧
    (∀ id e, (ofRequests requests).disconnect id = .error e →
      e = .notConnected id ∧ (ofRequests requests).after (.disconnect id) = ofRequests requests) ∧
    (∀ client id base b₁, (ofRequests requests).connect client = .ok ((id, base), b₁) →
      ∃ b₂, b₁.disconnect id = .ok ((allotted client base).client, b₂) ∧
        (∀ port, b₂.route? port = (ofRequests requests).route? port) ∧
        ∀ (later : List (Request γ)) request,
          (later.foldl PortBridge.after b₂).answer (request.shift id) =
            (((later.filterMap (·.unshift id)).foldl PortBridge.after
              (ofRequests requests)).answer request).shift id) := by
  have h := PortBridge.sound_ofRequests requests
  refine ⟨?_, fun id client => ?_, fun id e he => ?_, fun client id base b₁ hc => ?_⟩
  · refine (PortBridge.sound_empty.pairwise_ids requests).2.imp ?_
    exact Nat.ne_of_lt
  · simp only [PortBridge.disconnect_eq_ok_iff, ← PortBridge.get?_ofRequests_iff]
    constructor
    · rintro ⟨b', c, hc, rfl, -⟩
      exact ⟨c, hc, rfl⟩
    · rintro ⟨c, hc, rfl⟩
      exact ⟨_, c, hc, rfl, rfl⟩
  · exact ⟨(PortBridge.disconnect_eq_error_iff.1 he).2,
      PortBridge.after_of_disconnect_eq_error he⟩
  · obtain ⟨-, rfl, -⟩ := h.connect_eq_ok_iff.1 hc
    refine ⟨_, h.disconnect_of_connect hc, fun port => rfl, fun later request => ?_⟩
    have h₂ := h.of_nextId_le (Nat.le_succ _)
    exact (h.shifted.foldl_after h h₂ later).answer_eq (h.foldl_after _) (h₂.foldl_after _) request

/-- A bank of two registers, of which the second one is written to. -/
def writtenBank : List (Request RegisterBank) :=
  [.connect ⟨[0, 0], 8, false, []⟩, .output 9 7, .output 10 7]

theorem a_written_bank_is_given_back :
    (∃ c, StaysConnected writtenBank 0 c ∧ c.client = ⟨[0, 7], 8, false, []⟩) ∧
      (ofRequests writtenBank).after (.disconnect 1) = ofRequests writtenBank ∧
      ∃ b₁ b₂, (ofRequests writtenBank).connect threeRegisters = .ok ((1, 0), b₁) ∧
        b₁.disconnect 1 = .ok (threeRegisters, b₂) ∧
        ∀ port, b₂.route? port = (ofRequests writtenBank).route? port := by
  obtain ⟨-, hback, hrefused, hgone⟩ := a_number_gives_back_the_client_that_got_it writtenBank
  have hconnect : (ofRequests writtenBank).connect threeRegisters =
    .ok ((1, 0), (ofRequests writtenBank).attach ⟨0, 3, threeRegisters⟩) := rfl
  obtain ⟨b₂, hdisconnect, hroute, -⟩ := hgone threeRegisters 1 0 _ hconnect
  refine ⟨(hback 0 ⟨[0, 7], 8, false, []⟩).1 ⟨_, rfl⟩, (hrefused 1 _ rfl).2, _, b₂, hconnect, ?_⟩
  exact ⟨hdisconnect, hroute⟩

end WordMachine
