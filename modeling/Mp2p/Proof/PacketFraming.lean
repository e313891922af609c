import Mp2p.Lib.Framing
import Mp2p.Network.Session

/-!
# Framing is lossless

The receiver cuts the stream by the sizes in the headers, so it stays in step with the sender exactly
when the size a header carries is the number of bytes written after it. `add_message` keeps that
equality modulo `2³²` (`sized_addMessage`), so below `2³²` bytes of payload a packet read back is the
packet sent with its messages run together.
-/

namespace Mp2p.Network

open Masks

inductive AddCall where
  | addMessage (message : SharedBuffer)
  | addData (data : Bytes) (toCopy : Copy)
  | copyMessage (message : SharedBuffer)

namespace AddCall

def apply (p : Packet) : AddCall → Packet
  | addMessage message => p.addMessage message
  | addData data toCopy => p.addData data toCopy
  | copyMessage message => p.copyMessage message

def bytes : AddCall → Bytes
  | addMessage message => message.buf
  | addData data _ => data
  | copyMessage message => message.buf

end AddCall

/-- A packet built from `Packet(fromto, what)` by a sequence of calls. -/
structure Construction where
  fromto : FromtoType
  what : WhatType
  calls : List AddCall

namespace Construction

def packet (c : Construction) : Packet :=
  c.calls.foldl AddCall.apply (Packet.ofType c.fromto c.what)

def bytes (c : Construction) : Bytes := c.calls.flatMap AddCall.bytes

end Construction

def Packet.Sized (p : Packet) : Prop := p.header.size = UInt32.ofNat p.payload.length

/-- What the size in the header has over that of the messages. -/
def Packet.drift (p : Packet) : SizeType := p.header.size - UInt32.ofNat p.payload.length

theorem sized_iff_drift {p : Packet} : p.Sized ↔ p.drift = 0 := by
  rw [Packet.drift, UInt32.sub_eq_iff_eq_add, UInt32.zero_add]
  rfl

theorem sized_ofType (fromto : FromtoType) (what : WhatType) :
    (Packet.ofType fromto what).Sized := rfl

theorem payload_addMessage (p : Packet) (message : SharedBuffer) :
    (p.addMessage message).payload = p.payload ++ message.buf := by
  simp [Packet.addMessage, Packet.payload]

theorem drift_addMessage (p : Packet) (message : SharedBuffer) :
    (p.addMessage message).drift = p.drift := by
  rw [Packet.drift, payload_addMessage, List.length_append, UInt32.ofNat_add,
    UInt32.sub_eq_iff_eq_add, ← UInt32.add_assoc, Packet.drift, UInt32.sub_add_cancel]
  rfl

theorem sized_addMessage {p : Packet} (hp : p.Sized) (message : SharedBuffer) :
    (p.addMessage message).Sized := by
  rw [sized_iff_drift, drift_addMessage]
  exact sized_iff_drift.mp hp

theorem payload_addData (p : Packet) {data : Bytes} (hdata : data.length < 2 ^ 32) (toCopy : Copy) :
    (p.addData data toCopy).payload = p.payload ++ data := by
  rw [Packet.addData, payload_addMessage, SharedBuffer.buf_ofData, Nat.mod_eq_of_lt hdata,
    List.take_length]

theorem drift_apply (p : Packet) (call : AddCall) : (call.apply p).drift = p.drift := by
  cases call <;> exact drift_addMessage p _

theorem payload_apply (p : Packet) {call : AddCall} (hcall : call.bytes.length < 2 ^ 32) :
    (call.apply p).payload = p.payload ++ call.bytes := by
  cases call with
  | addMessage message => exact payload_addMessage p message
  | addData data toCopy => exact payload_addData p hcall toCopy
  | copyMessage message => exact payload_addData p hcall .yes

section Foldl

variable (calls : List AddCall) (p : Packet)

theorem drift_foldl : (calls.foldl AddCall.apply p).drift = p.drift := by
  induction calls generalizing p with
  | nil => rfl
  | cons call rest ih => exact (ih _).trans (drift_apply p call)

theorem payload_foldl (hcalls : (calls.flatMap AddCall.bytes).length < 2 ^ 32) :
    (calls.foldl AddCall.apply p).payload = p.payload ++ calls.flatMap AddCall.bytes := by
  induction calls generalizing p with
  | nil => simp
  | cons call rest ih =>
      rw [List.flatMap_cons, List.length_append] at hcalls
      rw [List.foldl_cons, ih _ (by omega), payload_apply p (by omega), List.flatMap_cons,
        List.append_assoc]

end Foldl

theorem payload_packet {c : Construction} (hc : c.bytes.length < 2 ^ 32) :
    c.packet.payload = c.bytes := by
  rw [Construction.packet, payload_foldl _ _ hc]
  rfl

theorem size_packet {c : Construction} (hc : c.bytes.length < 2 ^ 32) :
    c.packet.header.size.toNat = c.bytes.length := by
  have hsized : c.packet.Sized := by
    rw [sized_iff_drift, Construction.packet, drift_foldl]
    exact sized_iff_drift.mp (sized_ofType _ _)
  rw [hsized, payload_packet hc, UInt32.toNat_ofNat', Nat.mod_eq_of_lt hc]

theorem blockingSend_eq (p : Packet) : blockingSend p = Layout.image p.header ++ p.payload := by
  simp [blockingSend, Packet.serializeHeader, Packet.payload]

theorem header_ofMessage_emptyMessage (h : PacketHeader) :
    (Packet.ofMessage h.type.fromto h.type.what (emptyMessage h.size)).header = h := by
  simp [Packet.ofMessage, emptyMessage, SharedBuffer.size]

theorem length_blockingSend (p : Packet) :
    (blockingSend p).length = sizeof PacketHeader + p.payload.length := by
  rw [blockingSend_eq, List.length_append, Layout.length_image]

/-- After a whole header all depends on whether the body is whole. -/
theorem receivePacket_image_append (header : PacketHeader) (tail : Bytes) :
    receivePacket (Layout.image header ++ tail) =
      (Window.read tail 0 header.size.toNat).map fun body =>
        (received header body, tail.drop header.size.toNat) := by
  have hhead : Window.read (Layout.image header ++ tail) 0 (sizeof PacketHeader) =
      some (Layout.image header) := by
    have h := Layout.read_append [] (Layout.image header) tail
    rw [Layout.length_image] at h
    exact h
  have hover : Layout.overlay (Layout.image header) 0 = some header := by
    simpa using Layout.overlay_image_append header []
  have hdrop : (Layout.image header ++ tail).drop (sizeof PacketHeader) = tail :=
    List.drop_left' (Layout.length_image _)
  simp only [receivePacket, hhead, hover, hdrop, Option.bind_eq_bind, Option.bind_some,
    header_ofMessage_emptyMessage]
  cases Window.read tail 0 header.size.toNat with
  | none => rfl
  | some body => rfl

/-- A packet whose size field is exact is taken off the front of the stream whole. -/
theorem receivePacket_blockingSend {p : Packet} (hp : p.header.size.toNat = p.payload.length)
    (rest : Bytes) :
    receivePacket (blockingSend p ++ rest) = some (received p.header p.payload, rest) := by
  have hbody : Window.read (p.payload ++ rest) 0 p.header.size.toNat = some p.payload := by
    rw [hp]
    exact Layout.read_append [] p.payload rest
  rw [blockingSend_eq, List.append_assoc, receivePacket_image_append, hbody, Option.map_some, hp,
    List.drop_left]

/-- A stream that ends inside a packet yields nothing: neither half a header nor half a body is
handed over. -/
theorem receivePacket_take {p : Packet} (hp : p.header.size.toNat = p.payload.length) {n : ℕ}
    (hn : n < (blockingSend p).length) : receivePacket ((blockingSend p).take n) = none := by
  rw [length_blockingSend] at hn
  rcases Nat.lt_or_ge n (sizeof PacketHeader) with hlt | hge
  · -- the cut is inside the header
    have hread : Window.read ((blockingSend p).take n) 0 (sizeof PacketHeader) = none := by
      rw [Window.read, if_neg]
      rw [List.length_take]
      omega
    rw [receivePacket, hread]
    rfl
  · -- the header is whole and the cut is inside the body
    have hsplit : (blockingSend p).take n
        = Layout.image p.header ++ p.payload.take (n - sizeof PacketHeader) := by
      rw [blockingSend_eq, List.take_append, Layout.length_image,
        List.take_of_length_le (by rw [Layout.length_image]; exact hge)]
    have hbody : Window.read (p.payload.take (n - sizeof PacketHeader)) 0 p.header.size.toNat
        = none := by
      rw [Window.read, if_neg]
      rw [List.length_take, hp]
      omega
    rw [hsplit, receivePacket_image_append, hbody, Option.map_none]

def collect (seen : List Packet) (p : Packet) : List Packet × KeepAlive := (seen ++ [p], .yes)

/-- Whole packets are handed over in the order they were written, whatever follows them. -/
theorem blockingReceive_append {packets : List Packet}
    (hsize : ∀ p ∈ packets, p.header.size.toNat = p.payload.length) (tail : Bytes)
    (seen : List Packet) :
    blockingReceive collect seen (packets.flatMap blockingSend ++ tail)
      = blockingReceive collect
          (seen ++ packets.map fun p => received p.header p.payload) tail := by
  induction packets generalizing seen with
  | nil => simp
  | cons p rest ih =>
      have hp := hsize p List.mem_cons_self
      rw [List.flatMap_cons, List.append_assoc,
        blockingReceive_yes (receivePacket_blockingSend hp _) rfl, collect,
        ih (fun q hq => hsize q (List.mem_cons_of_mem _ hq)), List.map_cons, List.append_assoc]
      rfl

/-- **Lossless framing.** Packets of fewer than `2³²` payload bytes, written back to back and cut
anywhere: the receiver hands over exactly those that end before the cut, in order, each under its
own header and with its messages run together into one. -/
theorem blockingReceive_of_cut (sent : List Construction)
    (hsent : ∀ c ∈ sent, c.bytes.length < 2 ^ 32) (cut : ℕ) :
    (blockingReceive collect [] ((sent.flatMap fun c => blockingSend c.packet).take cut)).1
      = (sent.take (Framing.within (sent.map fun c => blockingSend c.packet) cut)).map fun c =>
          received c.packet.header c.bytes := by
  obtain ⟨tail, hcut, htail⟩ :=
    Framing.exists_take_eq (sent.map fun c => blockingSend c.packet) cut
  set whole := sent.take (Framing.within (sent.map fun c => blockingSend c.packet) cut) with hwhole
  have hsize : ∀ c ∈ sent, c.packet.header.size.toNat = c.packet.payload.length := fun c hc => by
    rw [size_packet (hsent c hc), payload_packet (hsent c hc)]
  have hmem : ∀ c ∈ whole, c ∈ sent := fun c hc => List.mem_of_mem_take hc
  have hstream : (sent.flatMap fun c => blockingSend c.packet).take cut
      = (whole.map Construction.packet).flatMap blockingSend ++ tail := by
    rw [List.flatMap_def, hcut, ← List.map_take, ← hwhole, List.flatMap_map, List.flatMap_def]
  have hpartial : receivePacket tail = none := by
    rcases htail with rfl | ⟨frame, hframe, n, hn, rfl⟩
    · simp [receivePacket, Window.read]
    · obtain ⟨c, hc, rfl⟩ := List.mem_map.mp hframe
      exact receivePacket_take (hsize c hc) hn
  rw [hstream, blockingReceive_append, blockingReceive_closed hpartial, List.nil_append,
    List.map_map]
  · refine List.map_congr_left fun c hc => ?_
    simp only [Function.comp_apply, payload_packet (hsent c (hmem c hc))]
  · intro p hp
    obtain ⟨c, hc, rfl⟩ := List.mem_map.mp hp
    exact hsize c (hmem c hc)

theorem blockingReceive_of_cut_two :
    let first : Construction := ⟨0, 1, [.addData [7, 8] .no, .copyMessage (.ofData [9] .yes)]⟩
    let second : Construction := ⟨3, 0, []⟩
    (blockingReceive collect []
        (([first, second].flatMap fun c => blockingSend c.packet).take 12)).1
      = [received ⟨3, 0, 1⟩ [7, 8, 9]] :=
  blockingReceive_of_cut [_, _] (by decide) 12

end Mp2p.Network
