import Mp2p.Network.Asynchronous

/-!
# The two transports side by side

`blocking_receive` hands every packet to the callback it was given. `receive` does so with the first
one only and gives the rest to the dispatcher of the session, so the two agree as long as there is no
second packet to hand over. Both ways of sending write the same bytes, and the callback of `send`
gets the packet with its own header put in front of its messages.
-/

namespace Mp2p.Network

open Masks

variable {σ : Type} {dispatcher callback : DispatcherType σ} {st : σ} {stream rest : Bytes}
  {p : Packet}

/-! ### Rounds of `receive` -/

theorem receive_closed (h : receivePacket stream = none) :
    receive dispatcher callback st stream = (st, stream) := by
  rw [← receiveHeader_bind_receiveBody] at h
  rw [receive]
  split
  · rfl
  · rename_i hreceived
    rw [h] at hreceived
    cases hreceived

theorem receive_eq (h : receivePacket stream = some (p, rest)) :
    receive dispatcher callback st stream =
      match callback st p with
      | (st, .yes) => receive dispatcher dispatcher st rest
      | (st, .no) => (st, rest) := by
  rw [← receiveHeader_bind_receiveBody] at h
  rw [receive]
  split
  · rename_i hclosed
    rw [h] at hclosed
    cases hclosed
  · rename_i hreceived
    rw [h] at hreceived
    cases hreceived
    rfl

theorem receive_yes (h : receivePacket stream = some (p, rest))
    (hanswer : (callback st p).2 = .yes) :
    receive dispatcher callback st stream = receive dispatcher dispatcher (callback st p).1 rest := by
  rw [receive_eq h, show callback st p = ((callback st p).1, .yes) from Prod.ext rfl hanswer]

theorem receive_no (h : receivePacket stream = some (p, rest)) (hanswer : (callback st p).2 = .no) :
    receive dispatcher callback st stream = ((callback st p).1, rest) := by
  rw [receive_eq h, show callback st p = ((callback st p).1, .no) from Prod.ext rfl hanswer]

/-- With the dispatcher of the session as the callback the two are one loop. -/
theorem receive_self (dispatcher : DispatcherType σ) (st : σ) (stream : Bytes) :
    receive dispatcher dispatcher st stream = blockingReceive dispatcher st stream := by
  induction hlength : stream.length using Nat.strong_induction_on generalizing st stream with
  | h n ih =>
      cases hreceived : receivePacket stream with
      | none => rw [receive_closed hreceived, blockingReceive_closed hreceived]
      | some r =>
          have hshorter : r.2.length < n := hlength ▸ length_lt_of_receivePacket hreceived
          cases hanswer : (dispatcher st r.1).2 with
          | yes =>
              rw [receive_yes hreceived hanswer, blockingReceive_yes hreceived hanswer]
              exact ih _ hshorter _ _ rfl
          | no => rw [receive_no hreceived hanswer, blockingReceive_no hreceived hanswer]

/-! ### Who is called -/

/-- The callback, with a record of its calls: who is called, and with which packet. -/
def logged (callback : DispatcherType σ) : DispatcherType (σ × List (DispatcherType σ × Packet)) :=
  fun st p => (((callback st.1 p).1, st.2 ++ [(callback, p)]), (callback st.1 p).2)

/-- The same packets in the same order to the same callback, and the same bytes left over. -/
def ReceivesAlike (dispatcher callback : DispatcherType σ) (st : σ) (stream : Bytes) : Prop :=
  receive (logged dispatcher) (logged callback) (st, []) stream =
    blockingReceive (logged callback) (st, []) stream

/-- The same bytes to the socket and the same packet to the callback. -/
def SendsAlike (write : Bytes → Bytes × Bool) (callback : DispatcherType σ) (st : σ)
    (packet : Packet) : Prop :=
  send write (logged callback) (st, []) packet =
    blockingSendWith write (logged callback) (st, []) packet

variable (callback) in
theorem exists_calls (st : σ × List (DispatcherType σ × Packet)) (stream : Bytes) :
    ∃ calls, (blockingReceive (logged callback) st stream).1.2 = st.2 ++ calls := by
  induction hlength : stream.length using Nat.strong_induction_on generalizing st stream with
  | h n ih =>
      cases hreceived : receivePacket stream with
      | none => exact ⟨[], by rw [blockingReceive_closed hreceived, List.append_nil]⟩
      | some r =>
          have hshorter : r.2.length < n := hlength ▸ length_lt_of_receivePacket hreceived
          cases hanswer : (logged callback st r.1).2 with
          | yes =>
              obtain ⟨calls, hcalls⟩ := ih _ hshorter (logged callback st r.1).1 r.2 rfl
              refine ⟨(callback, r.1) :: calls, ?_⟩
              rw [blockingReceive_yes hreceived hanswer, hcalls, List.append_cons]
              rfl
          | no => exact ⟨[(callback, r.1)], by rw [blockingReceive_no hreceived hanswer]; rfl⟩

variable (callback) in
/-- The first packet of the stream is in the first call. -/
theorem exists_calls_cons (st : σ × List (DispatcherType σ × Packet))
    (h : receivePacket stream = some (p, rest)) :
    ∃ calls, (blockingReceive (logged callback) st stream).1.2 = st.2 ++ (callback, p) :: calls := by
  cases hanswer : (logged callback st p).2 with
  | yes =>
      obtain ⟨calls, hcalls⟩ := exists_calls callback (logged callback st p).1 rest
      refine ⟨calls, ?_⟩
      rw [blockingReceive_yes h hanswer, hcalls, List.append_cons]
      rfl
  | no => exact ⟨[], by rw [blockingReceive_no h hanswer]; rfl⟩

theorem receivesAlike_iff : ReceivesAlike dispatcher callback st stream ↔
    dispatcher = callback ∨ ∀ p rest, receivePacket stream = some (p, rest) →
      (callback st p).2 = .yes → receivePacket rest = none := by
  unfold ReceivesAlike
  constructor
  · intro halike
    by_cases hsame : dispatcher = callback
    · exact Or.inl hsame
    · right
      intro p rest hreceived hyes
      have hanswer : (logged callback (st, []) p).2 = .yes := hyes
      by_contra hmore
      obtain ⟨⟨q, rest'⟩, hnext⟩ := Option.ne_none_iff_exists'.mp hmore
      rw [receive_yes hreceived hanswer, receive_self, blockingReceive_yes hreceived hanswer]
        at halike
      obtain ⟨calls, hcalls⟩ := exists_calls_cons dispatcher
        (logged callback (st, []) p).1 hnext
      obtain ⟨calls', hcalls'⟩ := exists_calls_cons callback
        (logged callback (st, []) p).1 hnext
      rw [halike, hcalls', List.append_cancel_left_eq, List.cons.injEq, Prod.mk.injEq] at hcalls
      exact hsame hcalls.1.1.symm
  · intro hcases
    rcases hcases with rfl | hlast
    · exact receive_self _ _ _
    · cases hreceived : receivePacket stream with
      | none => rw [receive_closed hreceived, blockingReceive_closed hreceived]
      | some r =>
          cases hanswer : (callback st r.1).2 with
          | yes =>
              have hyes : (logged callback (st, []) r.1).2 = .yes := hanswer
              have hend := hlast r.1 r.2 hreceived hanswer
              rw [receive_yes hreceived hyes, blockingReceive_yes hreceived hyes, receive_closed hend,
                blockingReceive_closed hend]
          | no =>
              have hno : (logged callback (st, []) r.1).2 = .no := hanswer
              rw [receive_no hreceived hno, blockingReceive_no hreceived hno]

/-- The header in front of the messages is the one difference, and only the callback sees it. -/
theorem sendsAlike_iff {write : Bytes → Bytes × Bool} {packet : Packet} :
    SendsAlike write callback st packet ↔ (write (blockingSend packet)).2 = false := by
  have hbytes : (packet.serializeHeader :: packet.messageSeq).flatMap SharedBuffer.buf =
      blockingSend packet := rfl
  have hne : ({ packet with messageSeq := packet.serializeHeader :: packet.messageSeq } : Packet) ≠
      packet := by
    intro h
    exact List.cons_ne_self _ _ (congrArg Packet.messageSeq h)
  rw [SendsAlike, send, blockingSendWith]
  dsimp only
  rw [hbytes]
  cases hok : (write (blockingSend packet)).2 with
  | false => exact iff_of_true rfl rfl
  | true =>
      refine iff_of_false ?_ Bool.noConfusion
      intro halike
      have hcalls := congrArg (fun sent => sent.2.2) halike
      simp only [if_pos, logged, List.nil_append, List.cons.injEq, Prod.mk.injEq] at hcalls
      exact hne hcalls.1.2

/-- **Two transports.** They receive alike exactly when the callback is the dispatcher of the session
or no packet follows the first one that it answered `keep_alive::Yes` to, and send alike exactly when
the write fails and no callback is called. -/
theorem transportsAlike_iff (dispatcher callback : DispatcherType σ) (st : σ) (stream : Bytes)
    (write : Bytes → Bytes × Bool) (packet : Packet) :
    (ReceivesAlike dispatcher callback st stream ↔
        dispatcher = callback ∨ ∀ p rest, receivePacket stream = some (p, rest) →
          (callback st p).2 = .yes → receivePacket rest = none) ∧
      (SendsAlike write callback st packet ↔ (write (blockingSend packet)).2 = false) ∧
      (send write callback st packet).1 = (blockingSendWith write callback st packet).1 :=
  ⟨receivesAlike_iff, sendsAlike_iff, rfl⟩

/-- Two empty packets for a callback that asks for more, on a session that does not; and an empty
packet sent whole. -/
theorem not_transportsAlike :
    ¬ReceivesAlike (fun _ _ => ((), .no)) (fun _ _ => ((), .yes)) ()
        (blockingSend (Packet.ofType 1 0) ++ blockingSend (Packet.ofType 1 0)) ∧
      ¬SendsAlike (fun bytes => (bytes, true)) (fun _ _ => ((), .no)) () (Packet.ofType 1 0) := by
  constructor
  · rw [receivesAlike_iff, not_or]
    constructor
    · intro hsame
      have hanswer := congrArg Prod.snd (congrFun (congrFun hsame ()) (Packet.ofType 1 0))
      exact KeepAlive.noConfusion hanswer
    · intro hlast
      have hfirst : receivePacket (blockingSend (Packet.ofType 1 0) ++
          blockingSend (Packet.ofType 1 0)) = some (received ⟨0, 1, 0⟩ [],
            blockingSend (Packet.ofType 1 0)) := by decide
      have hsecond := hlast _ _ hfirst rfl
      exact absurd hsecond (by decide)
  · rw [sendsAlike_iff]
    exact Bool.noConfusion

end Mp2p.Network
