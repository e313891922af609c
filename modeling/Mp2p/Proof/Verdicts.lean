import Mp2p.Proof.PacketFraming

/-!
# What `recv_ack` makes of a stream

The stream is whatever the peer sends until it closes: a whole packet, a piece of one, or nothing.
The verdict is given in the callback, which does not run when a read fails and looks at one byte
when it does.
-/

namespace Mp2p

open Masks Network

instance : Layout.Full PacketType := Layout.full_ofEquiv (α := FromtoType × WhatType) _
instance : Layout.Full PacketHeader := Layout.full_ofEquiv (α := SizeType × PacketType) _

namespace Network

variable {stream rest : Bytes} {p : Packet}

/-- The next packet on the stream is whole: a header, and as many bytes as it says. -/
def NextPacket (stream : Bytes) (header : PacketHeader) (body : Bytes) : Prop :=
  body.length = header.size.toNat ∧ ∃ rest, stream = Layout.image header ++ (body ++ rest)

theorem receivePacket_of_nextPacket {header : PacketHeader} {body : Bytes}
    (h : NextPacket stream header body) :
    (receivePacket stream).map Prod.fst = some (received header body) := by
  obtain ⟨hlength, rest, rfl⟩ := h
  have hbody : Window.read (body ++ rest) 0 header.size.toNat = some body := by
    rw [← hlength]
    exact Layout.read_append [] body rest
  rw [receivePacket_image_append, hbody, Option.map_some, Option.map_some]

/-- What is received is a packet that was there whole. -/
theorem exists_nextPacket (h : receivePacket stream = some (p, rest)) :
    ∃ header body, NextPacket stream header body ∧ p = received header body := by
  have hlength : sizeof PacketHeader ≤ stream.length := by
    simp only [receivePacket, Option.bind_eq_bind, Option.bind_eq_some_iff] at h
    obtain ⟨_, hread, _⟩ := h
    have hfit := (Window.read_eq_some_iff.mp hread).1
    omega
  obtain ⟨header, tail, rfl⟩ := Layout.exists_image_append (α := PacketHeader) hlength
  rw [receivePacket_image_append, Option.map_eq_some_iff] at h
  obtain ⟨body, hbody, heq⟩ := h
  rw [Window.read_eq_some_iff, List.drop_zero, zero_add] at hbody
  cases heq
  refine ⟨header, body, ⟨?_, tail.drop header.size.toNat, ?_⟩, rfl⟩
  · rw [hbody.2, List.length_take, Nat.min_eq_left hbody.1]
  · rw [hbody.2, List.take_append_drop]

theorem NextPacket.unique {header header' : PacketHeader} {body body' : Bytes}
    (h : NextPacket stream header body) (h' : NextPacket stream header' body') :
    header' = header ∧ body' = body := by
  have hreceived := receivePacket_of_nextPacket h
  rw [receivePacket_of_nextPacket h', Option.some_inj] at hreceived
  have hfront := congrArg Packet.front hreceived
  rw [front_received, front_received] at hfront
  exact ⟨congrArg Packet.header hreceived, hfront⟩

/-- Cut anywhere in its header or its body, or not there at all, a packet is not received. -/
theorem receivePacket_of_not_nextPacket (h : ∀ header body, ¬NextPacket stream header body) :
    receivePacket stream = none := by
  by_contra hsome
  obtain ⟨⟨p, rest⟩, hreceived⟩ := Option.ne_none_iff_exists'.mp hsome
  obtain ⟨header, body, hnext, -⟩ := exists_nextPacket hreceived
  exact h header body hnext

theorem readAck_received (header : PacketHeader) (body : Bytes) :
    readAck (received header body) = body.head? := by
  cases body with
  | nil => rfl
  | cons byte tail =>
      have hoverlay := Layout.overlay_image_append byte tail
      have himage : Layout.image byte = [byte] := by
        change [UInt8.ofNat byte.toNat] = [byte]
        rw [UInt8.ofNat_toNat]
      rw [himage] at hoverlay
      exact hoverlay

/-! ### The verdict -/

def AckResult.Returns : AckResult → Prop
  | .lost | .accepted _ => True
  | .threw _ | .fault => False

def AckResult.Throws : AckResult → Prop
  | .threw _ => True
  | .lost | .accepted _ | .fault => False

/-- The next packet on the stream is whole, an ack, and carries `error_code::success`. -/
def Acknowledged (stream : Bytes) : Prop :=
  ∃ header body, NextPacket stream header body ∧ header.type.what = ackW ∧
    body.head? = some ErrorCode.success.toUInt8

/-- `recv_ack` returns on an acknowledgement and throws on everything else. -/
def TellsSuccess (stream : Bytes) : Prop :=
  ((recvAck stream).1.Returns ↔ Acknowledged stream) ∧
    (¬Acknowledged stream → (recvAck stream).1.Throws)

theorem recvAck_of_nextPacket {header : PacketHeader} {body : Bytes}
    (h : NextPacket stream header body) : (recvAck stream).1 =
      match body.head? with
      | none => .fault
      | some ackCode =>
          if ackCode ≠ ErrorCode.success.toUInt8 then .threw (received header body)
          else .accepted (received header body) := by
  rw [recvAck_eq, receivePacket_of_nextPacket h]
  dsimp only
  rewrite [readAck_received]
  rfl

theorem recvAck_of_not_nextPacket (h : ∀ header body, ¬NextPacket stream header body) :
    (recvAck stream).1 = .lost := by
  rw [recvAck_eq, receivePacket_of_not_nextPacket h, Option.map_none]

theorem NextPacket.acknowledged_iff {header : PacketHeader} {body : Bytes}
    (h : NextPacket stream header body) : Acknowledged stream ↔
      header.type.what = ackW ∧ body.head? = some ErrorCode.success.toUInt8 := by
  constructor
  · intro hacked
    obtain ⟨header', body', hnext, hwhat, hcode⟩ := hacked
    obtain ⟨rfl, rfl⟩ := h.unique hnext
    exact ⟨hwhat, hcode⟩
  · intro hacked
    exact ⟨header, body, h, hacked⟩

/-- **Success and failure.** `recv_ack` tells them apart exactly when a whole packet with a body is
next, and a first byte of zero is in an ack. -/
theorem tellsSuccess_iff (stream : Bytes) : TellsSuccess stream ↔
    ∃ header byte tail, NextPacket stream header (byte :: tail) ∧
      (byte = ErrorCode.success.toUInt8 → header.type.what = ackW) := by
  by_cases hsome : ∃ header body, NextPacket stream header body
  · obtain ⟨header, body, hnext⟩ := hsome
    have hverdict := recvAck_of_nextPacket hnext
    rw [TellsSuccess, hnext.acknowledged_iff]
    cases body with
    | nil =>
        -- the byte after the header is read, and nothing is there
        have hfault : (recvAck stream).1 = .fault := hverdict
        rw [hfault]
        refine iff_of_false (fun h => h.2 fun hacked => nomatch hacked.2) ?_
        intro h
        obtain ⟨header', byte, tail, hnext', -⟩ := h
        cases (hnext.unique hnext').2
    | cons byte tail =>
        have hunique : (∃ header' byte' tail', NextPacket stream header' (byte' :: tail') ∧
            (byte' = ErrorCode.success.toUInt8 → header'.type.what = ackW)) ↔
              (byte = ErrorCode.success.toUInt8 → header.type.what = ackW) := by
          constructor
          · intro h
            obtain ⟨header', byte', tail', hnext', hwhat⟩ := h
            obtain ⟨rfl, hbody⟩ := hnext.unique hnext'
            obtain ⟨rfl, -⟩ := List.cons_eq_cons.mp hbody
            exact hwhat
          · intro h
            exact ⟨header, byte, tail, hnext, h⟩
        have hhead : (byte :: tail).head? = some ErrorCode.success.toUInt8 ↔
            byte = ErrorCode.success.toUInt8 := Option.some_inj
        rw [hunique, hhead]
        by_cases hcode : byte = ErrorCode.success.toUInt8
        · have haccepted : (recvAck stream).1 = .accepted (received header (byte :: tail)) :=
            hverdict.trans (if_neg (not_not.mpr hcode))
          rw [haccepted]
          constructor
          · intro h _
            exact (h.1.mp trivial).1
          · intro h
            exact ⟨iff_of_true trivial ⟨h hcode, hcode⟩, fun hno => absurd ⟨h hcode, hcode⟩ hno⟩
        · have hthrew : (recvAck stream).1 = .threw (received header (byte :: tail)) :=
            hverdict.trans (if_pos hcode)
          rw [hthrew]
          refine iff_of_true ⟨iff_of_false id fun h => hcode h.2, fun _ => trivial⟩ ?_
          exact fun h => absurd h hcode
  · have hnone : ∀ header body, ¬NextPacket stream header body :=
      fun header body h => hsome ⟨header, body, h⟩
    -- the failed read is logged and the callback never runs
    rw [TellsSuccess, recvAck_of_not_nextPacket hnone]
    refine iff_of_false ?_ ?_
    · intro h
      obtain ⟨header, body, hnext, -⟩ := h.1.mp trivial
      exact hnone header body hnext
    · intro h
      obtain ⟨header, byte, tail, hnext, -⟩ := h
      exact hnone header _ hnext

/-- A peer that closes at once is taken for one that acknowledged. -/
theorem not_tellsSuccess_closed : ¬TellsSuccess [] := by
  intro h
  obtain ⟨header, byte, tail, ⟨-, rest, hstream⟩, -⟩ := (tellsSuccess_iff []).mp h
  have hlength := congrArg List.length hstream
  rw [List.length_append, Layout.length_image] at hlength
  exact absurd hlength (by rw [List.length_nil]; change 0 ≠ 6 + _; omega)

end Network

end Mp2p
