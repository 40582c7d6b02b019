-- Histories of a bridge: what it answers to one request after the other, and which clients
-- it holds in between. Only the reads and writes at its own ports change a client.
import Mathlib.Data.List.Induction
import WordMachine.Proofs.PortAllocation

namespace WordMachine

variable {γ : Type}

namespace Connection

instance (c : Connection γ) (port : UInt16) : Decidable (c.Holds port) :=
  inferInstanceAs (Decidable (_ ∧ _))

/-- A connection after an access to a port: in its range, `f` reaches the client at the
distance of the port from the start of the range. -/
def access (f : γ → UInt16 → γ) (port : UInt16) (c : Connection γ) : Connection γ :=
  if c.Holds port then { c with client := f c.client (port - c.base) } else c

/-- A connection after a request to the bridge that it stays connected to. -/
def after [PortClient γ] (c : Connection γ) : PortBridge.Request γ → Connection γ
  | .input port => c.access (fun client offset => (PortClient.read client offset).2) port
  | .output port value => c.access (fun client offset => PortClient.write client offset value) port
  | .connect _ => c
  | .disconnect _ => c

end Connection

namespace PortBridge

/-! ## Accesses -/

theorem nextId_access (b : PortBridge γ) (f : γ → UInt16 → γ) (port : UInt16) :
    (b.access f port).nextId = b.nextId := by
  unfold access
  split <;> rfl

/-- An access reaches the client whose range holds the port, and no other one. -/
theorem Sound.get?_access {b : PortBridge γ} (h : b.Sound) (f : γ → UInt16 → γ) (port : UInt16)
    (id : Nat) : (b.access f port).connections.get? id =
      (b.connections.get? id).map (·.access f port) := by
  -- The ports of a client are routed to it, so what is routed elsewhere is not its own.
  have hkept : (∀ c, b.route? port ≠ some (id, c)) →
      b.connections.get? id = (b.connections.get? id).map (·.access f port) := by
    intro hr
    cases hc : b.connections.get? id with
    | none => rfl
    | some c =>
      have hnot : ¬ c.Holds port := mt (h.route?_of_holds hc) (hr c)
      rw [Option.map_some, Connection.access, if_neg hnot]
  unfold PortBridge.access
  cases hr : b.route? port with
  | none => exact hkept fun c => by simp [hr]
  | some r =>
    obtain ⟨owner, d⟩ := r
    obtain ⟨hd, hp⟩ := h.holds_of_route? hr
    have hchanges := changes_setClient hd (f d.client (port - d.base))
    by_cases hid : id = owner
    · subst hid
      rw [hchanges.changed d hd, hd, Option.map_some, Connection.access, if_pos hp]
    · rw [hchanges.others id hid]
      exact hkept fun c => by simp [hr, Ne.symm hid]

/-! ## Answers -/

/-- What a bridge answers to a request. -/
inductive Answer (γ : Type)
  | connected (id : Nat) (base : UInt16)
  | returned (client : γ)
  | refused (e : BridgeError)
  | value (value : UInt16)
  | written

section Clients

variable [PortClient γ] {b b' : PortBridge γ} {client : γ} {id : Nat} {base : UInt16}
  {e : BridgeError}

/-- The answer to a request. -/
def answer (b : PortBridge γ) : Request γ → Answer γ
  | .connect client =>
    match b.connect client with
    | .ok ((id, base), _) => .connected id base
    | .error e => .refused e
  | .disconnect id =>
    match b.disconnect id with
    | .ok (client, _) => .returned client
    | .error e => .refused e
  | .input port => .value (Device.input b port).1
  | .output _ _ => .written

/-- The answers to requests, each of which finds the bridge as the ones before left it. -/
def answers (b : PortBridge γ) : List (Request γ) → List (Answer γ)
  | [] => []
  | request :: requests => b.answer request :: (b.after request).answers requests

theorem answer_of_connect (hc : b.connect client = .ok ((id, base), b')) :
    b.answer (.connect client) = .connected id base := by
  unfold answer
  simp only [hc]

theorem answer_of_connect_eq_error (hc : b.connect client = .error e) :
    b.answer (.connect client) = .refused e := by
  unfold answer
  simp only [hc]

theorem answer_of_disconnect (hd : b.disconnect id = .ok (client, b')) :
    b.answer (.disconnect id) = .returned client := by
  unfold answer
  simp only [hd]

theorem answer_of_disconnect_eq_error (hd : b.disconnect id = .error e) :
    b.answer (.disconnect id) = .refused e := by
  unfold answer
  simp only [hd]

theorem ofRequests_append_singleton (requests : List (Request γ)) (request : Request γ) :
    ofRequests (requests ++ [request]) = (ofRequests requests).after request := by
  unfold ofRequests
  rw [List.foldl_append]
  rfl

/-! ## Numbers -/

/-- The number that an answer hands out. -/
def Answer.id? : Answer γ → Option Nat
  | .connected id _ => some id
  | _ => none

/-- A request is handed out the next number, which is then used up, or none. -/
theorem Sound.nextId_after (h : b.Sound) (request : Request γ) :
    (b.answer request).id? = some b.nextId ∧ (b.after request).nextId = b.nextId + 1 ∨
      (b.answer request).id? = none ∧ (b.after request).nextId = b.nextId := by
  cases request with
  | connect client =>
    cases hc : b.connect client with
    | error e =>
      rw [answer_of_connect_eq_error hc, after_of_connect_eq_error hc]
      exact .inr ⟨rfl, rfl⟩
    | ok r =>
      obtain ⟨⟨id, base⟩, b'⟩ := r
      rw [answer_of_connect hc, after_of_connect hc]
      obtain ⟨-, rfl, rfl⟩ := h.connect_eq_ok_iff.1 hc
      exact .inl ⟨rfl, rfl⟩
  | disconnect id =>
    right
    cases hd : b.disconnect id with
    | error e =>
      rw [answer_of_disconnect_eq_error hd, after_of_disconnect_eq_error hd]
      exact ⟨rfl, rfl⟩
    | ok r =>
      obtain ⟨client, b'⟩ := r
      rw [answer_of_disconnect hd, after_of_disconnect hd]
      obtain ⟨c, -, -, rfl⟩ := disconnect_eq_ok_iff.1 hd
      exact ⟨rfl, rfl⟩
  | input port =>
    rw [after_input]
    exact .inr ⟨rfl, nextId_access b _ port⟩
  | output port value =>
    rw [after_output]
    exact .inr ⟨rfl, nextId_access b _ port⟩

/-- The numbers that are handed out go up from the next one. -/
theorem Sound.pairwise_ids (h : b.Sound) (requests : List (Request γ)) :
    (∀ id ∈ (b.answers requests).filterMap Answer.id?, b.nextId ≤ id) ∧
      ((b.answers requests).filterMap Answer.id?).Pairwise (· < ·) := by
  induction requests generalizing b with
  | nil => simp [answers]
  | cons request requests ih =>
    obtain ⟨hle, hlt⟩ := ih (h.after request)
    unfold answers
    rcases h.nextId_after request with ⟨hid, hnext⟩ | ⟨hid, hnext⟩
    · rw [hnext] at hle
      rw [List.filterMap_cons_some hid]
      refine ⟨List.forall_mem_cons.2 ⟨Nat.le_refl _, fun id hi => ?_⟩,
        List.pairwise_cons.2 ⟨hle, hlt⟩⟩
      exact Nat.le_of_succ_le (hle id hi)
    · rw [hnext] at hle
      rw [List.filterMap_cons_none hid]
      exact ⟨hle, hlt⟩

/-! ## The clients after requests -/

theorem Sound.get?_after_connect (h : b.Sound) {c : Connection γ} :
    (b.after (.connect client)).connections.get? id = some c ↔
      (∃ base, b.answer (.connect client) = .connected id base ∧ c = allotted client base) ∨
        b.connections.get? id = some c := by
  cases hc : b.connect client with
  | error e =>
    rw [after_of_connect_eq_error hc, answer_of_connect_eq_error hc]
    simp
  | ok r =>
    obtain ⟨⟨next, base⟩, b'⟩ := r
    rw [after_of_connect hc, answer_of_connect hc]
    obtain ⟨-, rfl, rfl⟩ := h.connect_eq_ok_iff.1 hc
    rw [get?_attach]
    constructor
    · rintro (⟨rfl, rfl⟩ | ⟨-, hold⟩)
      · exact .inl ⟨base, rfl, rfl⟩
      · exact .inr hold
    · rintro (⟨_, hanswer, rfl⟩ | hold)
      · cases hanswer
        exact .inl ⟨rfl, rfl⟩
      · exact .inr ⟨Nat.ne_of_lt (h.id_lt id c hold), hold⟩

theorem get?_after_disconnect {other : Nat} {c : Connection γ} :
    (b.after (.disconnect other)).connections.get? id = some c ↔
      other ≠ id ∧ b.connections.get? id = some c := by
  cases hd : b.disconnect other with
  | error e =>
    rw [after_of_disconnect_eq_error hd]
    obtain ⟨hnone, -⟩ := disconnect_eq_error_iff.1 hd
    refine ⟨fun hc => ⟨?_, hc⟩, And.right⟩
    rintro rfl
    rw [hnone] at hc
    cases hc
  | ok r =>
    obtain ⟨client, b'⟩ := r
    rw [after_of_disconnect hd]
    obtain ⟨d, -, -, rfl⟩ := disconnect_eq_ok_iff.1 hd
    simp only [AddressMap.get?_erase]
    by_cases hid : id = other <;> simp [hid, eq_comm]

/-- After a request there are the client that it connects, and those that were connected and
that it does not disconnect, as the request leaves them. -/
theorem Sound.get?_after (h : b.Sound) (request : Request γ) {c : Connection γ} :
    (b.after request).connections.get? id = some c ↔
      (∃ client base, request = .connect client ∧ b.answer request = .connected id base ∧
        c = allotted client base) ∨
      (request ≠ .disconnect id ∧ ∃ d, b.connections.get? id = some d ∧ d.after request = c) := by
  cases request with
  | connect client => simp [h.get?_after_connect, Connection.after]
  | disconnect other => simp [get?_after_disconnect, Connection.after]
  | input port => simp [after_input, h.get?_access, Connection.after]
  | output port value => simp [after_output, h.get?_access, Connection.after]

/-- The requests connected a client with this number and have not disconnected it since, and
`c` is its connection with all that they have done to it. -/
def StaysConnected (requests : List (Request γ)) (id : Nat) (c : Connection γ) : Prop :=
  ∃ before client base since, requests = before ++ .connect client :: since ∧
    (ofRequests before).answer (.connect client) = .connected id base ∧
    .disconnect id ∉ since ∧ c = since.foldl Connection.after (allotted client base)

/-- A client is connected just if it was connected under its number and stays so. -/
theorem get?_ofRequests_iff (requests : List (Request γ)) {c : Connection γ} :
    (ofRequests requests).connections.get? id = some c ↔ StaysConnected requests id c := by
  unfold StaysConnected
  -- The last request either connected the client, or it finds the client connected already.
  induction requests using List.reverseRecOn generalizing c with
  | nil => simp [ofRequests, empty]
  | append_singleton requests request ih =>
    rw [ofRequests_append_singleton, (sound_ofRequests requests).get?_after]
    constructor
    · rintro (⟨client, base, rfl, hanswer, rfl⟩ | ⟨hne, d, hd, rfl⟩)
      · exact ⟨requests, client, base, [], rfl, hanswer, List.not_mem_nil, rfl⟩
      · obtain ⟨before, client, base, since, rfl, hanswer, hsince, rfl⟩ := ih.1 hd
        refine ⟨before, client, base, since ++ [request], by simp, hanswer, ?_, by simp⟩
        simp [hsince, hne.symm]
    · rintro ⟨before, client, base, since, hsplit, hanswer, hsince, rfl⟩
      rcases List.eq_nil_or_concat since with rfl | ⟨since, last, rfl⟩
      · obtain ⟨rfl, hlast⟩ := List.append_inj' hsplit rfl
        cases hlast
        exact .inl ⟨client, base, rfl, hanswer, rfl⟩
      · simp only [List.concat_eq_append, List.mem_append, List.mem_singleton, not_or] at hsince
        rw [List.concat_eq_append, ← List.cons_append, ← List.append_assoc] at hsplit
        obtain ⟨rfl, hlast⟩ := List.append_inj' hsplit rfl
        cases hlast
        refine .inr ⟨Ne.symm hsince.2, _, ih.2 ⟨before, client, base, since, rfl, hanswer,
          hsince.1, rfl⟩, ?_⟩
        simp

end Clients

end PortBridge

end WordMachine
