import Mp2p.Proof.Requests
import Mp2p.Proof.Storing

/-!
# How every packet of a storage ends

When the dispatcher of a storage and the handler behind it read nothing outside a packet, and when
they return. A length is never checked against the struct of a message, and no exception is caught,
so both depend on the packet, on what is stored and on the peer.
-/

namespace Mp2p.Storage

open Masks Network Files Fuel

inductive Kind where
  | invalid
  | ignored
  | upAct
  | downAct
  deriving DecidableEq, Repr

def kindOf (packet : Packet) : Kind :=
  if packet.sizeGet < 1 then .invalid
  else if packet.whatGet = ackW then .ignored
  else if packet.fromtoGet = CS.fromto ∧ packet.whatGet = CS.upActW then .upAct
  else if packet.fromtoGet = CS.fromto ∧ packet.whatGet = CS.downActW then .downAct
  else .ignored

def Readable (s : Setup) (w : World) (env : Env) (partid : PartId) : Prop :=
  ∃ contents, w.directory.lookup (uploadPath s partid) = some contents ∧
    env.mappable (UInt64.ofNat contents.length).toUInt32 = true ∧
    (hashBufferHex s.sha1 (contents.take (UInt64.ofNat contents.length).toUInt32.toNat)
      (UInt64.ofNat contents.length)).isSome

/-- What keeps a storage inside a packet of this kind, and inside the acknowledgement it gets. -/
def SafeFor (s : Setup) (w : World) (r : Request) : Kind → Prop
  | .invalid => r.packet.fromtoGet ≤ 5
  | .ignored => True
  | .upAct => 12 ≤ r.packet.sizeGet.toNat ∧
      (r.env.remoteAddress.isSome → 32 ≤ r.packet.sizeGet.toNat)
  | .downAct => 12 ≤ r.packet.sizeGet.toNat ∧
      ∀ partid, readDownAct r.packet = some ⟨partid⟩ → Readable s w r.env partid →
        ∀ p rest, receivePacket r.env.stream = some (p, rest) → p.front ≠ []

/-- What makes a storage return from a packet of this kind. -/
def ServedFor (s : Setup) (w : World) (r : Request) : Kind → Prop
  | .invalid => r.packet.fromtoGet ≤ 5
  | .ignored => True
  | .upAct => r.env.remoteAddress.isSome ∧ ∃ part data, readUpAct r.packet = some (part, data) ∧
      (Checks s part data → r.env.masterReachable = true)
  | .downAct => ∃ partid, readDownAct r.packet = some ⟨partid⟩ ∧ Readable s w r.env partid ∧
      ∀ p rest, receivePacket r.env.stream = some (p, rest) →
        readAck p = some ErrorCode.success.toUInt8

section Outcomes

variable {s : Setup} {w : World} {r : Request}

theorem outcome_invalid (w : World) (r : Request) :
    Outcome .fault ((sendError r.packet .invalidPacket).run exec w).1 (SafeFor s w r .invalid)
      (ServedFor s w r .invalid) := by
  have hdirection := @Master.fromtoInverse_isSome_iff r.packet.fromtoGet
  rw [run_sendError, SafeFor, ServedFor, ← hdirection]
  cases fromtoInverse r.packet.fromtoGet with
  | none => exact outcome_fault nofun nofun
  | some fromtoDst => exact outcome_ok KeepAlive.no rfl rfl

theorem outcome_upAct (hdelivered : Delivered r.packet) (hfromto : r.packet.fromtoGet = CS.fromto) :
    Outcome .fault ((csUpAct s r).run exec w).1 (SafeFor s w r .upAct)
      (ServedFor s w r .upAct) := by
  have hpartid := isSome_readPartId hdelivered
  have hlength := isSome_readUpAct hdelivered
  rw [run_csUpAct hdelivered hfromto, SafeFor, ServedFor, ← hpartid, ← hlength]
  cases hid : readPartId r.packet with
  | none =>
      refine outcome_fault (fun h => Bool.noConfusion h.1) fun h => ?_
      obtain ⟨-, part, data, hread, -⟩ := h
      rw [hread] at hlength
      rw [hid] at hpartid
      have hshort : 12 ≤ r.packet.sizeGet.toNat := (by omega : 12 ≤ 32).trans (hlength.mp rfl)
      exact absurd (hpartid.mpr hshort) nofun
  | some partid =>
      dsimp only
      cases r.env.remoteAddress with
      | none => exact outcome_error nofun ⟨rfl, nofun⟩ fun h => nomatch h.1
      | some address =>
          dsimp only
          cases readUpAct r.packet with
          | none =>
              refine outcome_fault (fun h => nomatch h.2 rfl) fun h => ?_
              obtain ⟨-, part, data, hread, -⟩ := h
              cases hread
          | some upload =>
              obtain ⟨part, data⟩ := upload
              have hserved (h : Checks s part data → r.env.masterReachable = true) :
                  (some address).isSome ∧ ∃ part' data', some (part, data) = some (part', data') ∧
                    (Checks s part' data' → r.env.masterReachable = true) :=
                ⟨rfl, part, data, rfl, h⟩
              dsimp only
              by_cases hchecks : hashBufferHex s.sha1 data (UInt64.ofNat data.length) =
                  some part.sha1
              · rw [if_pos hchecks, run_storePart hfromto]
                by_cases hmaster : r.env.masterReachable = true
                · rw [if_pos hmaster]
                  exact outcome_ok KeepAlive.yes ⟨rfl, fun _ => rfl⟩ (hserved fun _ => hmaster)
                · rw [if_neg hmaster]
                  refine outcome_error nofun ⟨rfl, fun _ => rfl⟩ fun h => ?_
                  obtain ⟨-, part', data', heq, h⟩ := h
                  rw [Option.some_inj, Prod.mk.injEq] at heq
                  rw [← heq.1, ← heq.2] at h
                  exact hmaster (h hchecks)
              · rw [if_neg hchecks]
                exact outcome_ok KeepAlive.no ⟨rfl, fun _ => rfl⟩ (hserved fun h => absurd h hchecks)

/-- A reply to a part that was sent is read without a fault unless it is empty, and ends the handler
unless it is a success. -/
theorem outcome_ack (stream : Bytes) : Outcome .fault (ackOutcome (recvAck stream).1)
    (∀ p rest, receivePacket stream = some (p, rest) → p.front ≠ [])
    (∀ p rest, receivePacket stream = some (p, rest) →
      readAck p = some ErrorCode.success.toUInt8) := by
  rw [recvAck_eq]
  cases receivePacket stream with
  | none => exact outcome_ok KeepAlive.no nofun nofun
  | some received =>
      obtain ⟨p, rest⟩ := received
      have hall {q : Packet → Prop} :
          (∀ p' rest', some (p, rest) = some (p', rest') → q p') ↔ q p := by
        refine ⟨fun h => h p rest rfl, fun h p' rest' heq => ?_⟩
        rwa [← (Prod.mk.inj (Option.some_inj.mp heq)).1]
      have hlength := Layout.isSome_overlay UInt8 p.front 0
      rw [hall, hall, Option.map_some]
      dsimp only
      cases hack : readAck p with
      | none =>
          have hnone : (Layout.overlay p.front 0 : Option UInt8) = none := hack
          rw [hnone] at hlength
          refine outcome_fault (fun hne => ?_) nofun
          exact absurd (hlength.mpr (List.length_pos_of_ne_nil hne)) nofun
      | some ackCode =>
          have hsome : (Layout.overlay p.front 0 : Option UInt8) = some ackCode := hack
          rw [hsome] at hlength
          have hne : p.front ≠ [] := List.ne_nil_of_length_pos (hlength.mp rfl)
          dsimp only
          by_cases hsuccess : ackCode = ErrorCode.success.toUInt8
          · rw [if_neg (not_not_intro hsuccess)]
            exact outcome_ok KeepAlive.no hne (congrArg some hsuccess)
          · rw [if_pos hsuccess]
            exact outcome_error nofun hne fun h => hsuccess (Option.some_inj.mp h)

theorem outcome_downAct (hdelivered : Delivered r.packet) :
    Outcome .fault ((csDownAct s r).run exec w).1 (SafeFor s w r .downAct)
      (ServedFor s w r .downAct) := by
  have hlength := isSome_readDownAct hdelivered
  rw [run_csDownAct, SafeFor, ServedFor, ← hlength]
  cases readDownAct r.packet with
  | none =>
      refine outcome_fault (fun h => nomatch h.1) fun h => ?_
      obtain ⟨_, hread, -⟩ := h
      cases hread
  | some request =>
      obtain ⟨partid⟩ := request
      have hsafe : ((some (CS.DownAct.mk partid)).isSome ∧ ∀ partid',
          some (CS.DownAct.mk partid) = some ⟨partid'⟩ → Readable s w r.env partid' →
            ∀ p rest, receivePacket r.env.stream = some (p, rest) → p.front ≠ []) ↔
          (Readable s w r.env partid →
            ∀ p rest, receivePacket r.env.stream = some (p, rest) → p.front ≠ []) := by
        refine ⟨fun h => h.2 partid rfl, fun h => ⟨rfl, fun partid' heq => ?_⟩⟩
        rwa [← CS.DownAct.mk.inj (Option.some_inj.mp heq)]
      have hserved : (∃ partid', some (CS.DownAct.mk partid) = some ⟨partid'⟩ ∧
          Readable s w r.env partid' ∧ ∀ p rest, receivePacket r.env.stream = some (p, rest) →
            readAck p = some ErrorCode.success.toUInt8) ↔
          Readable s w r.env partid ∧ ∀ p rest, receivePacket r.env.stream = some (p, rest) →
            readAck p = some ErrorCode.success.toUInt8 := by
        refine ⟨fun h => ?_, fun h => ⟨partid, rfl, h⟩⟩
        obtain ⟨partid', heq, h⟩ := h
        rwa [← CS.DownAct.mk.inj (Option.some_inj.mp heq)] at h
      rw [hsafe, hserved]
      dsimp only
      rw [run_openFile, downloadPath_eq]
      cases hcontents : w.directory.lookup (uploadPath s partid) with
      | none =>
          have hnot : ¬Readable s w r.env partid := by
            rintro ⟨contents, hsome, -⟩
            rw [hcontents] at hsome
            cases hsome
          exact outcome_error nofun (fun h => absurd h hnot) fun h => hnot h.1
      | some contents =>
          dsimp only
          by_cases hmap : r.env.mappable (UInt64.ofNat contents.length).toUInt32 = true
          · rw [if_pos hmap]
            dsimp only
            cases hhash : hashBufferHex s.sha1
                (contents.take (UInt64.ofNat contents.length).toUInt32.toNat)
                (UInt64.ofNat contents.length) with
            | none =>
                have hnot : ¬Readable s w r.env partid := by
                  rintro ⟨contents', hsome, -, hread⟩
                  rw [hcontents, Option.some_inj] at hsome
                  rw [← hsome, hhash] at hread
                  cases hread
                exact outcome_error nofun (fun h => absurd h hnot) fun h => hnot h.1
            | some hash =>
                have hread : Readable s w r.env partid :=
                  ⟨contents, hcontents, hmap, by rw [hhash]; rfl⟩
                have hack := outcome_ack r.env.stream
                refine ⟨hack.ne_iff.trans ?_, hack.ok_iff.trans ?_⟩
                · exact ⟨fun h _ => h, fun h => h hread⟩
                · exact (and_iff_right hread).symm
          · rw [if_neg hmap]
            have hnot : ¬Readable s w r.env partid := by
              rintro ⟨contents', hsome, hmap', -⟩
              rw [hcontents, Option.some_inj] at hsome
              rw [← hsome] at hmap'
              exact hmap hmap'
            exact outcome_error nofun (fun h => absurd h hnot) fun h => hnot h.1

/-- **Packets.** For every packet that was delivered, what keeps a storage inside it and what makes
it return. -/
theorem outcome_recvDispatcher (hdelivered : Delivered r.packet) :
    Outcome .fault ((recvDispatcher s r).run exec w).1 (SafeFor s w r (kindOf r.packet))
      (ServedFor s w r (kindOf r.packet)) := by
  rw [recvDispatcher, kindOf]
  by_cases hsize : r.packet.sizeGet < 1
  · rw [if_pos hsize, if_pos hsize]
    exact outcome_invalid w r
  rw [if_neg hsize, if_neg hsize]
  by_cases hack : r.packet.whatGet = ackW
  · rw [if_pos hack, if_pos hack]
    exact outcome_ok KeepAlive.no trivial trivial
  rw [if_neg hack, if_neg hack]
  by_cases hup : r.packet.fromtoGet = CS.fromto ∧ r.packet.whatGet = CS.upActW
  · rw [if_pos hup, if_pos hup]
    exact outcome_upAct hdelivered hup.1
  rw [if_neg hup, if_neg hup]
  by_cases hdown : r.packet.fromtoGet = CS.fromto ∧ r.packet.whatGet = CS.downActW
  · rw [if_pos hdown, if_pos hdown]
    exact outcome_downAct hdelivered
  rw [if_neg hdown, if_neg hdown]
  exact outcome_ok KeepAlive.no trivial trivial

end Outcomes

end Mp2p.Storage
