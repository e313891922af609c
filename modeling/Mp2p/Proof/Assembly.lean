import Mp2p.Proof.PacketFraming

/-!
# Packets and what they were built from

However a packet is built and whatever is added to it, the size in its header moves with the size of
its messages, and the messages show the bytes they were given. The exceptions are a vector that is
moved, of which the buffer keeps the bytes and shows none, and a header that comes with a size.
-/

namespace Mp2p

namespace SharedBuffer

inductive Source where
  | size (n : ℕ)
  | container (moved : Bytes)
  | data (given : Bytes) (toCopy : Copy)

namespace Source

def build : Source → SharedBuffer
  | size n => ofSize n
  | container moved => ofContainer moved
  | data given toCopy => ofData given toCopy

def bytes : Source → Bytes
  | size n => List.replicate n 0
  | container moved => moved
  | data given _ => given

def Kept : Source → Prop
  | container moved => moved = []
  | _ => True

end Source

theorem length_buf_build_le (source : Source) : source.build.buf.length ≤ source.bytes.length := by
  cases source with
  | size n => exact le_rfl
  | container moved => exact Nat.zero_le _
  | data given toCopy => exact (congrArg List.length (buf_ofData given toCopy)).le

theorem buf_build_eq_iff {source : Source} : source.build.buf = source.bytes ↔ source.Kept := by
  cases source with
  | size n => exact iff_of_true rfl trivial
  | container moved => exact eq_comm
  | data given toCopy => exact iff_of_true (buf_ofData given toCopy) trivial

end SharedBuffer

namespace Network

open Masks SharedBuffer

namespace Packet

/-- The constructors of `Packet`, with what they are given besides the type. -/
inductive Origin where
  | data (given : Bytes)
  | dataCopy (given : Bytes) (toCopy : Copy)
  | message (source : Source)
  | container (moved : Bytes)
  | header (size : SizeType)
  | type

namespace Origin

def packet (fromto : FromtoType) (what : WhatType) : Origin → Packet
  | data given => ofData fromto what given
  | dataCopy given toCopy => ofDataCopy fromto what given toCopy
  | message source => ofMessage fromto what source.build
  | container moved => ofContainer fromto what moved
  | header size => ofHeader ⟨size, fromto, what⟩
  | type => ofType fromto what

def bytes : Origin → Bytes
  | data given => given
  | dataCopy given _ => given
  | message source => source.bytes
  | container moved => moved
  | header _ => []
  | type => []

def Kept : Origin → Prop
  | message source => source.Kept
  | container moved => moved = []
  | header size => size = 0
  | _ => True

end Origin

/-- One call that adds a message, with how the buffer in it was built. -/
inductive Addition where
  | message (source : Source)
  | data (given : Bytes) (toCopy : Copy)
  | copied (source : Source)

namespace Addition

def call : Addition → AddCall
  | message source => .addMessage source.build
  | data given toCopy => .addData given toCopy
  | copied source => .copyMessage source.build

def bytes : Addition → Bytes
  | message source => source.bytes
  | data given _ => given
  | copied source => source.bytes

def Kept : Addition → Prop
  | message source => source.Kept
  | data _ _ => True
  | copied source => source.Kept

end Addition

def assemble (fromto : FromtoType) (what : WhatType) (origin : Origin)
    (additions : List Addition) : Packet :=
  (additions.map Addition.call).foldl AddCall.apply (origin.packet fromto what)

def supplied (origin : Origin) (additions : List Addition) : Bytes :=
  origin.bytes ++ additions.flatMap Addition.bytes

/-- The size in the header is that of the messages, and they show these bytes. -/
structure Holds (p : Packet) (bytes : Bytes) : Prop where
  size_eq : p.sizeGet.toNat = (p.messageSeq.map SharedBuffer.size).sum
  payload_eq : p.payload = bytes

/-! ### What the messages show -/

theorem length_payload (p : Packet) :
    p.payload.length = (p.messageSeq.map SharedBuffer.size).sum := by
  rw [payload, List.length_flatMap]
  rfl

theorem length_bytes_call_le (addition : Addition) :
    addition.call.bytes.length ≤ addition.bytes.length := by
  cases addition with
  | message source => exact length_buf_build_le source
  | data given toCopy => exact le_rfl
  | copied source => exact length_buf_build_le source

theorem bytes_call_eq_iff {addition : Addition} :
    addition.call.bytes = addition.bytes ↔ addition.Kept := by
  cases addition with
  | message source => exact buf_build_eq_iff
  | data given toCopy => exact iff_of_true rfl trivial
  | copied source => exact buf_build_eq_iff

section Origin

variable (fromto : FromtoType) (what : WhatType)

theorem payload_ofDataCopy {data : Bytes} (hdata : data.length < 2 ^ 32) (toCopy : Copy) :
    (ofDataCopy fromto what data toCopy).payload = data := by
  rw [payload, ofDataCopy, List.flatMap_singleton, buf_ofData, Nat.mod_eq_of_lt hdata,
    List.take_length]

theorem length_payload_packet_le {origin : Origin} (horigin : origin.bytes.length < 2 ^ 32) :
    (origin.packet fromto what).payload.length ≤ origin.bytes.length := by
  cases origin with
  | data given => exact (congrArg List.length (payload_ofDataCopy fromto what horigin .yes)).le
  | dataCopy given toCopy =>
      exact (congrArg List.length (payload_ofDataCopy fromto what horigin toCopy)).le
  | message source =>
      rw [Origin.packet, payload, ofMessage, List.flatMap_singleton]
      exact length_buf_build_le source
  | container moved => exact Nat.zero_le _
  | header size => exact le_rfl
  | type => exact le_rfl

theorem drift_ofDataCopy {data : Bytes} (hdata : data.length < 2 ^ 32) (toCopy : Copy) :
    (ofDataCopy fromto what data toCopy).drift = 0 := by
  rw [← sized_iff_drift, Sized, payload_ofDataCopy fromto what hdata]
  rfl

theorem drift_ofMessage (message : SharedBuffer) : (ofMessage fromto what message).drift = 0 := by
  rw [← sized_iff_drift, Sized, payload, ofMessage, List.flatMap_singleton]
  rfl

/-- A constructor counts its bytes and shows them, but for a vector and a size. -/
theorem kept_iff {origin : Origin} (horigin : origin.bytes.length < 2 ^ 32) :
    origin.Kept ↔ (origin.packet fromto what).payload = origin.bytes ∧
      (origin.packet fromto what).drift = 0 := by
  cases origin with
  | data given =>
      exact iff_of_true trivial ⟨payload_ofDataCopy fromto what horigin .yes,
        drift_ofDataCopy fromto what horigin .yes⟩
  | dataCopy given toCopy =>
      exact iff_of_true trivial ⟨payload_ofDataCopy fromto what horigin toCopy,
        drift_ofDataCopy fromto what horigin toCopy⟩
  | message source =>
      have hshown : ((Origin.message source).packet fromto what).payload = source.build.buf := by
        rw [Origin.packet, payload, ofMessage, List.flatMap_singleton]
      rw [hshown]
      exact buf_build_eq_iff.symm.trans
        (and_iff_left (drift_ofMessage fromto what source.build)).symm
  | container moved =>
      constructor
      · rintro rfl
        exact ⟨rfl, UInt32.sub_self 0⟩
      · rintro ⟨hshown, -⟩
        exact hshown.symm
  | header size =>
      have hdrift : ((Origin.header size).packet fromto what).drift = size := UInt32.sub_zero size
      rw [hdrift]
      exact (and_iff_right rfl).symm
  | type => exact iff_of_true trivial ⟨rfl, UInt32.sub_self 0⟩

end Origin

/-! ### The packet that is assembled -/

section Assemble

variable {fromto : FromtoType} {what : WhatType} {origin : Origin} {additions : List Addition}

theorem holds_iff {p : Packet} {bytes : Bytes} (hbytes : bytes.length < 2 ^ 32) :
    p.Holds bytes ↔ p.payload = bytes ∧ p.drift = 0 := by
  rw [← sized_iff_drift]
  constructor
  · rintro ⟨hsize, hpayload⟩
    refine ⟨hpayload, ?_⟩
    rw [← length_payload] at hsize
    rw [Sized, ← hsize]
    exact UInt32.ofNat_toNat.symm
  · rintro ⟨hpayload, hsized⟩
    refine ⟨?_, hpayload⟩
    rw [← length_payload, sizeGet, hsized, UInt32.toNat_ofNat', hpayload, Nat.mod_eq_of_lt hbytes]

theorem drift_assemble : (assemble fromto what origin additions).drift =
    (origin.packet fromto what).drift :=
  drift_foldl _ _

theorem payload_assemble (hsize : (supplied origin additions).length < 2 ^ 32) :
    (assemble fromto what origin additions).payload =
      (origin.packet fromto what).payload ++ additions.flatMap fun a => a.call.bytes := by
  have hshorter := Framing.length_flatMap_le (l := additions) fun a _ => length_bytes_call_le a
  rw [supplied, List.length_append] at hsize
  rw [assemble, payload_foldl, List.flatMap_map]
  rw [List.flatMap_map]
  omega

theorem payload_assemble_eq_iff (hsize : (supplied origin additions).length < 2 ^ 32) :
    (assemble fromto what origin additions).payload = supplied origin additions ↔
      (origin.packet fromto what).payload = origin.bytes ∧ ∀ a ∈ additions, a.Kept := by
  have hcalls := Framing.flatMap_eq_flatMap_iff (l := additions) fun a _ => length_bytes_call_le a
  have hshorter := Framing.length_flatMap_le (l := additions) fun a _ => length_bytes_call_le a
  have hsplit := hsize
  rw [supplied, List.length_append] at hsplit
  have horigin : origin.bytes.length < 2 ^ 32 := by omega
  have hfront := length_payload_packet_le fromto what horigin
  rw [payload_assemble hsize, supplied]
  constructor
  · intro heq
    have htotal := congrArg List.length heq
    rw [List.length_append, List.length_append] at htotal
    obtain ⟨hfirst, hrest⟩ := List.append_inj heq (by omega)
    exact ⟨hfirst, fun a ha => bytes_call_eq_iff.mp (hcalls.mp hrest a ha)⟩
  · rintro ⟨hfirst, hkept⟩
    rw [hfirst, hcalls.mpr fun a ha => bytes_call_eq_iff.mpr (hkept a ha)]

/-- **The header matches the content.** Of a packet that is given fewer than `2³²` bytes, exactly
when no bytes are moved into it and no size comes without bytes. -/
theorem holds_assemble_iff (hsize : (supplied origin additions).length < 2 ^ 32) :
    (assemble fromto what origin additions).Holds (supplied origin additions) ↔
      origin.Kept ∧ ∀ a ∈ additions, a.Kept := by
  have hsplit := hsize
  rw [supplied, List.length_append] at hsplit
  have horigin : origin.bytes.length < 2 ^ 32 := by omega
  rw [holds_iff hsize, payload_assemble_eq_iff hsize, drift_assemble,
    kept_iff fromto what horigin, and_right_comm]

end Assemble

/-- A packet from a buffer, bytes that are not copied and a message that is. -/
theorem holds_assemble_three :
    (assemble 0 1 (.message (.data [7, 8] .no)) [.data [9] .no, .copied (.size 2)]).Holds
      [7, 8, 9, 0, 0] :=
  (holds_assemble_iff (by decide)).mpr
    ⟨trivial, List.forall_mem_cons.mpr ⟨trivial, List.forall_mem_singleton.mpr trivial⟩⟩

/-- The vector of five letters is counted in the header and shown by no message. -/
theorem not_holds_moved : ¬∀ (fromto : FromtoType) (what : WhatType) (origin : Origin)
    (additions : List Addition), (supplied origin additions).length < 2 ^ 32 →
      (assemble fromto what origin additions).Holds (supplied origin additions) := by
  intro h
  have hmoved := (h 0 0 (.container [79, 79, 79, 79, 79]) [] (by decide)).size_eq
  exact absurd hmoved (by decide)

end Packet

end Network

end Mp2p
