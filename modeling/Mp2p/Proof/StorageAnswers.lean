import Mp2p.Proof.Hashing
import Mp2p.Proof.Lengths

/-!
# How a storage answers

What a handler of a storage comes to, as a function of the packet, its environment and the
directory: how it ends, what it writes and what it sends.
-/

namespace Mp2p.Storage

open Masks Network Files

def sending (w : World) (packets : List (Peer × Packet)) : World :=
  { w with sent := w.sent ++ packets }

@[simp] theorem sending_sending (w : World) (first second : List (Peer × Packet)) :
    sending (sending w first) second = sending w (first ++ second) := by
  rw [sending, sending, sending, List.append_assoc]

def saving (w : World) (env : Env) (path data : Bytes) : World :=
  match env.written path data with
  | none => w
  | some contents => { w with directory := w.directory.insert path contents }

theorem sent_saving (w : World) (env : Env) (path data : Bytes) :
    (saving w env path data).sent = w.sent := by
  rw [saving]
  cases env.written path data with
  | none => rfl
  | some contents => rfl

section Answers

variable {s : Setup} {r : Request} {w : World}

theorem run_sendAck (packet : Packet) (ack : ErrorCode) (w : World) :
    (sendAck packet ack).run exec w = match fromtoInverse packet.fromtoGet with
      | none => (.error .fault, w)
      | some fromtoDst => (.ok (), sending w [(.client, ackPacket fromtoDst ack)]) := by
  rw [sendAck, Program.run_bind, Program.run_ofOption]
  cases fromtoInverse packet.fromtoGet with
  | none => rfl
  | some fromtoDst => rfl

theorem run_sendError (packet : Packet) (code : ErrorCode) (w : World) :
    (sendError packet code).run exec w = match fromtoInverse packet.fromtoGet with
      | none => (.error .fault, w)
      | some fromtoDst => (.ok .no, sending w [(.client, ackPacket fromtoDst code)]) := by
  rw [sendError, Program.run_bind, run_sendAck]
  cases fromtoInverse packet.fromtoGet with
  | none => rfl
  | some fromtoDst => rfl

theorem run_writeFile (env : Env) (path data : Bytes) (w : World) :
    (writeFile env path data).run exec w = (.ok (), saving w env path data) := by
  rw [writeFile, saving]
  cases env.written path data with
  | none => rfl
  | some contents => rfl

theorem run_createSession (env : Env) (w : World) :
    (createSession env).run exec w =
      (if env.masterReachable then .ok () else .error .exception, w) := by
  rw [createSession]
  split_ifs
  · rfl
  · rfl

def storePart (s : Setup) (r : Request) (partid : PartId) (data : Bytes) : Handler KeepAlive := do
  writeFile r.env (uploadPath s partid) data
  createSession r.env
  send .master (partAckPacket s.id partid 10)
  sendAck r.packet .success
  pure .yes

def storedAcks (s : Setup) (partid : PartId) : List (Peer × Packet) :=
  [(.master, partAckPacket s.id partid 10), (.client, ackPacket SC.fromto .success)]

theorem run_storePart (hfromto : r.packet.fromtoGet = CS.fromto) (partid : PartId) (data : Bytes)
    (w : World) : (storePart s r partid data).run exec w =
      if r.env.masterReachable then
        (.ok .yes, sending (saving w r.env (uploadPath s partid) data) (storedAcks s partid))
      else (.error .exception, saving w r.env (uploadPath s partid) data) := by
  rw [storePart, Program.run_bind, run_writeFile]
  dsimp only
  rw [Program.run_bind, run_createSession]
  by_cases hmaster : r.env.masterReachable
  · rw [if_pos hmaster, if_pos hmaster]
    change (sendAck r.packet .success >>= _).run exec (sending _ [_]) = _
    rw [Program.run_bind, run_sendAck, hfromto]
    change (Except.ok KeepAlive.yes, sending (sending _ _) _) = _
    rw [sending_sending]
    rfl
  · rw [if_neg hmaster, if_neg hmaster]

theorem run_csUpAct (hdelivered : Delivered r.packet) (hfromto : r.packet.fromtoGet = CS.fromto)
    (w : World) : (csUpAct s r).run exec w = match readPartId r.packet with
      | none => (.error .fault, w)
      | some partid => match r.env.remoteAddress with
        | none => (.error .exception, w)
        | some _ => match readUpAct r.packet with
          | none => (.error .fault, w)
          | some (part, data) =>
              if hashBufferHex s.sha1 data (UInt64.ofNat data.length) = some part.sha1 then
                (storePart s r partid data).run exec w
              else (.ok .no, sending w [(.client, ackPacket SC.fromto .hashFailed)]) := by
  rw [csUpAct, Program.run_bind, Program.run_ofOption]
  cases readPartId r.packet with
  | none => rfl
  | some partid =>
      dsimp only [Option.elim_some]
      rw [Program.run_bind, Program.run_ofOption]
      cases r.env.remoteAddress with
      | none => rfl
      | some address =>
          dsimp only [Option.elim_some]
          rw [Program.run_bind, Program.run_ofOption]
          cases hread : readUpAct r.packet with
          | none => rfl
          | some upload =>
              obtain ⟨part, data⟩ := upload
              dsimp only [Option.elim_some]
              obtain ⟨hlength, hsize⟩ := length_of_readUpAct hdelivered hread
              have hlt := r.packet.sizeGet.toNat_lt
              obtain ⟨hash, hhash⟩ := @exists_hashBufferHex data s.sha1 (by omega)
              rw [hsize, hhash, Program.run_bind, Program.run_ofOption]
              dsimp only [Option.elim_some]
              simp only [Option.some_inj]
              by_cases heq : hash = part.sha1
              · rw [if_pos heq, if_neg (not_not_intro heq)]
                rfl
              · rw [if_neg heq, if_pos heq, run_sendError, hfromto]
                rfl

/-- How a download ends with what `recv_ack` comes to. -/
def ackOutcome : AckResult → Except Halt KeepAlive
  | .lost => .ok .no
  | .accepted _ => .ok .no
  | .threw _ => .error .exception
  | .fault => .error .fault

theorem run_openFile (env : Env) (path : Bytes) (w : World) :
    (openFile env path).run exec w = match w.directory.lookup path with
      | none => (.error .exception, w)
      | some contents =>
          let size := UInt64.ofNat contents.length
          if env.mappable size.toUInt32 then (.ok (contents.take size.toUInt32.toNat, size), w)
          else (.error .exception, w) := by
  change (Program.ofOption Halt.exception (w.directory.lookup path) >>= _).run exec w = _
  rw [Program.run_bind, Program.run_ofOption]
  cases w.directory.lookup path with
  | none => rfl
  | some contents =>
      dsimp only [Option.elim_some]
      by_cases hmap : env.mappable (UInt64.ofNat contents.length).toUInt32
      · rw [if_pos hmap, if_pos hmap]
        rfl
      · rw [if_neg hmap, if_neg hmap]
        rfl

theorem run_csDownAct (s : Setup) (r : Request) (w : World) :
    (csDownAct s r).run exec w = match readDownAct r.packet with
      | none => (.error .fault, w)
      | some request => match (openFile r.env (downloadPath s request.partid)).run exec w with
        | (.error e, w) => (.error e, w)
        | (.ok (part, fileSize), w) => match hashBufferHex s.sha1 part fileSize with
          | none => (.error .overrun, w)
          | some hash => (ackOutcome (recvAck r.env.stream).1,
              sending w [(.client, partDataPacket request.partid hash part)]) := by
  rw [csDownAct, Program.run_bind, Program.run_ofOption]
  cases readDownAct r.packet with
  | none => rfl
  | some request =>
      dsimp only [Option.elim_some]
      rw [Program.run_bind]
      cases (openFile r.env (downloadPath s request.partid)).run exec w with
      | mk result w' =>
          cases result with
          | error e => rfl
          | ok opened =>
              obtain ⟨part, fileSize⟩ := opened
              dsimp only
              rw [Program.run_bind, Program.run_ofOption]
              cases hashBufferHex s.sha1 part fileSize with
              | none => rfl
              | some hash =>
                  dsimp only [Option.elim_some]
                  change (match (recvAck r.env.stream).1 with
                    | .lost => pure KeepAlive.no
                    | .accepted _ => pure KeepAlive.no
                    | .threw _ => Program.throw Halt.exception
                    | .fault => Program.throw Halt.fault : Handler KeepAlive).run exec
                      (sending w' [_]) = _
                  cases (recvAck r.env.stream).1 with
                  | lost => rfl
                  | accepted p => rfl
                  | threw p => rfl
                  | fault => rfl

end Answers

end Mp2p.Storage
