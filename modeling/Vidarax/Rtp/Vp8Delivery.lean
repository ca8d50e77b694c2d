import Vidarax.Rtp.Packetize
import Vidarax.Rtp.Vp8

/-!
# VP8 frames under loss and duplication

Frames in packets with payload descriptors after RFC 7741, of which packets get lost or arrive
twice in a row. Of a frame with a missing or doubled packet before its last one no sample is
given, and a doubled last packet of several gives no second one. The only packet of a frame
begins the frame again when it is doubled.
-/

namespace Vidarax.Rtp

open Vidarax.Base

/-! ### Payloads -/

/-- Fields behind the first byte of a payload descriptor, each where its bit is set. -/
structure Vp8Extension where
  bits : UInt8
  pictureId : Option (UInt8 × Option UInt8)
  tl0PicIdx : Option UInt8
  tidKeyIdx : Option UInt8
  hasPictureId : pictureId.isSome = decide ((bits &&& 0x80) ≠ 0)
  longPictureId : ∀ id ∈ pictureId, id.2.isSome = decide ((id.1 &&& 0x80) ≠ 0)
  hasTl0PicIdx : tl0PicIdx.isSome = decide ((bits &&& 0x40) ≠ 0)
  hasTidKeyIdx : tidKeyIdx.isSome = decide ((bits &&& 0x30) ≠ 0)

/-- Bytes of a picture id. -/
def pictureIdBytes (id : UInt8 × Option UInt8) : List UInt8 := id.1 :: id.2.toList

/-- Bytes of the fields. -/
def Vp8Extension.bytes (e : Vp8Extension) : List UInt8 :=
  e.bits :: (e.pictureId.elim [] pictureIdBytes ++ e.tl0PicIdx.toList ++ e.tidKeyIdx.toList)

/-- A packet of a frame: its descriptor and the part of the frame behind it. -/
structure Vp8Packet where
  first : UInt8
  extension : Option Vp8Extension
  data : List UInt8
  hasExtension : extension.isSome = decide ((first &&& 0x80) ≠ 0)
  nonempty : data ≠ []

namespace Vp8Packet

/-- Bytes of the descriptor. -/
def descriptor (p : Vp8Packet) : List UInt8 := p.first :: p.extension.elim [] Vp8Extension.bytes

/-- Bytes of the packet's payload. -/
def bytes (p : Vp8Packet) : List UInt8 := p.descriptor ++ p.data

/-- The packet begins partition 0. -/
def isFrameStart (p : Vp8Packet) : Bool := decide ((p.first &&& 0x10) ≠ 0) && p.first &&& 0x07 == 0

end Vp8Packet

/-- An optional byte is skipped where its bit is set. -/
theorem skipField_byte (front rest : List UInt8) {field : Option UInt8} {bit : Bool}
    (h : field.isSome = bit) :
    skipField bit (skipByte (front ++ (field.toList ++ rest))) front.length =
      some (front ++ field.toList).length := by
  subst h
  cases field with
  | none => simp [skipField]
  | some byte => simp [skipField, skipByte]

/-- A picture id is skipped. -/
theorem skipPictureId_append (front rest : List UInt8) {id : UInt8 × Option UInt8}
    (h : id.2.isSome = decide ((id.1 &&& 0x80) ≠ 0)) :
    skipPictureId (front ++ (pictureIdBytes id ++ rest)) front.length =
      some (front ++ pictureIdBytes id).length := by
  have hfirst : (front ++ (pictureIdBytes id ++ rest))[front.length]? = some id.1 := by
    simp [pictureIdBytes]
  have hmore := skipField_byte (front ++ [id.1]) rest h
  have hjoin : front ++ [id.1] ++ (id.2.toList ++ rest) =
      front ++ (pictureIdBytes id ++ rest) := by simp [pictureIdBytes]
  rw [hjoin, List.length_append, List.length_singleton] at hmore
  rw [skipPictureId, hfirst, Option.bind_eq_bind, Option.bind_some, hmore]
  simp [pictureIdBytes]

/-- An optional picture id is skipped where its bit is set. -/
theorem skipField_pictureId (front rest : List UInt8) {field : Option (UInt8 × Option UInt8)}
    {bit : Bool} (h : field.isSome = bit)
    (hlong : ∀ id ∈ field, id.2.isSome = decide ((id.1 &&& 0x80) ≠ 0)) :
    skipField bit (skipPictureId (front ++ (field.elim [] pictureIdBytes ++ rest)))
      front.length = some (front ++ field.elim [] pictureIdBytes).length := by
  subst h
  cases field with
  | none => simp [skipField]
  | some id => exact skipPictureId_append front rest (hlong id rfl)

/-- The fields of an extension are skipped. -/
theorem skipExtension_append (front rest : List UInt8) (e : Vp8Extension) :
    skipExtension (front ++ (e.bytes ++ rest)) front.length =
      some (front ++ e.bytes).length := by
  let id := e.pictureId.elim [] pictureIdBytes
  let payload := front ++ (e.bytes ++ rest)
  have hext : payload[front.length]? = some e.bits := by simp [payload, Vp8Extension.bytes]
  have hid := skipField_pictureId (front ++ [e.bits])
    (e.tl0PicIdx.toList ++ (e.tidKeyIdx.toList ++ rest)) e.hasPictureId e.longPictureId
  have htl0 := skipField_byte (front ++ [e.bits] ++ id) (e.tidKeyIdx.toList ++ rest)
    e.hasTl0PicIdx
  have htid := skipField_byte (front ++ [e.bits] ++ id ++ e.tl0PicIdx.toList) rest
    e.hasTidKeyIdx
  -- the three views of the payload are the same bytes
  have h1 : front ++ [e.bits] ++ (id ++ (e.tl0PicIdx.toList ++ (e.tidKeyIdx.toList ++ rest))) =
      payload := by simp [payload, Vp8Extension.bytes, id]
  have h2 : front ++ [e.bits] ++ id ++ (e.tl0PicIdx.toList ++ (e.tidKeyIdx.toList ++ rest)) =
      payload := by simp [payload, Vp8Extension.bytes, id]
  have h3 : front ++ [e.bits] ++ id ++ e.tl0PicIdx.toList ++ (e.tidKeyIdx.toList ++ rest) =
      payload := by simp [payload, Vp8Extension.bytes, id]
  rw [h1, List.length_append, List.length_singleton] at hid
  rw [h2] at htl0
  rw [h3] at htid
  simp only [Option.bind_eq_bind, skipExtension]
  rw [hext, Option.bind_some, hid, Option.bind_some, htl0, Option.bind_some, htid]
  simp [Vp8Extension.bytes, id]

/-- The descriptor of a sent packet is read as it was written. -/
theorem parseDescriptor_bytes (p : Vp8Packet) :
    parseDescriptor p.bytes =
      some ⟨(p.first &&& 0x10) ≠ 0, p.first &&& 0x07, p.descriptor.length⟩ := by
  have hfirst : p.bytes[0]? = some p.first := rfl
  have hskip : skipField (decide ((p.first &&& 0x80) ≠ 0)) (skipExtension p.bytes) 1 =
      some p.descriptor.length := by
    rw [← p.hasExtension, Vp8Packet.bytes, Vp8Packet.descriptor]
    cases p.extension with
    | none => rfl
    | some e => exact skipExtension_append [p.first] p.data e
  rw [parseDescriptor, hfirst, Option.bind_eq_bind, Option.bind_some, hskip]
  rfl

/-! ### Frames -/

variable {Extension Addr Audio : Type}

/-- A call for a packet of video with the bytes of a sent one. -/
def Carries (call : Call Extension Addr) (p : Vp8Packet) : Prop :=
  call.kind = .video ∧ call.payload = p.bytes

/-- A frame in packets, of which only the first begins partition 0, and the calls of `push` that
its packets make. -/
structure SentFrame (Extension Addr : Type) where
  timestamp : UInt32
  first : Vp8Packet
  rest : List Vp8Packet
  start : first.isFrameStart = true
  continues : ∀ p ∈ rest, p.isFrameStart = false
  call : Call Extension Addr
  calls : List (Call Extension Addr)
  carries : Carries call first
  carriesRest : List.Forall₂ Carries calls rest
  timestamps : ∀ c ∈ call :: calls, c.timestamp = timestamp
  marked : MarkedLast (call :: calls)

/-- The payloads of a frame's packets in one. -/
def SentFrame.data (sent : SentFrame Extension Addr) : List UInt8 :=
  sent.first.data ++ sent.rest.flatMap Vp8Packet.data

/-- A sample with all payloads of a frame and its timestamp. -/
def SentFrame.IsWhole (sent : SentFrame Extension Addr) (frame : VideoFrame Extension Addr) :
    Prop :=
  frame.data = sent.data ∧ frame.rtpTimestamp = sent.timestamp

/-- Items that arrive as often as some numbers say, in order. -/
def deliver {α : Type} : List α → List Nat → List α
  | item :: items, n :: copies => List.replicate n item ++ deliver items copies
  | _, _ => []

/-- A frame of which packets are lost or arrive twice in a row. -/
structure DeliveredFrame (Extension Addr : Type) where
  sent : SentFrame Extension Addr
  copies : List Nat
  length : copies.length = sent.calls.length + 1
  twice : ∀ n ∈ copies, n ≤ 2

/-- Calls of the packets that arrive. -/
def DeliveredFrame.delivered (u : DeliveredFrame Extension Addr) : List (Call Extension Addr) :=
  deliver (u.sent.call :: u.sent.calls) u.copies

/-- How many packets are lost. -/
def DeliveredFrame.lost (u : DeliveredFrame Extension Addr) : Nat := u.copies.count 0

/-- The only packet of the frame arrives twice. -/
def DeliveredFrame.Doubled (u : DeliveredFrame Extension Addr) : Prop := u.copies = [2]

/-- Frames among some samples. -/
def videoFrames (samples : List (MediaSample Extension Addr Audio)) :
    List (VideoFrame Extension Addr) :=
  samples.filterMap fun
    | .video frame => some frame
    | .audio _ => none

theorem mem_of_mem_deliver {α : Type} {items : List α} {copies : List Nat} {item : α}
    (h : item ∈ deliver items copies) : item ∈ items := by
  induction items generalizing copies with
  | nil => cases copies <;> exact h
  | cons first items ih =>
    cases copies with
    | nil => exact absurd h List.not_mem_nil
    | cons n copies =>
      rcases List.mem_append.mp h with hfirst | hrest
      · rw [List.eq_of_mem_replicate hfirst]
        exact List.mem_cons_self
      · exact List.mem_cons_of_mem first (ih hrest)

/-- The first item that arrives has the number of its place, behind the lost ones. -/
theorem number_of_deliver {α β : Type} {next : β → β} {number : α → β} {b : β} {items : List α}
    {copies : List Nat} {item : α} {rest : List α} (hnumbered : Numbered next number b items)
    (h : deliver items copies = item :: rest) :
    ∃ k ≤ copies.count 0, number item = next^[k] b := by
  induction items generalizing b copies with
  | nil => cases copies <;> contradiction
  | cons first items ih =>
    cases copies with
    | nil => contradiction
    | cons n copies =>
      cases n with
      | zero =>
        obtain ⟨k, hk, hnumber⟩ := ih hnumbered.2 h
        exact ⟨k + 1, by rw [List.count_cons_self]; omega, hnumber⟩
      | succ n =>
        rw [deliver, List.replicate_succ, List.cons_append, List.cons_eq_cons] at h
        exact ⟨0, Nat.zero_le _, by rw [← h.1]; exact hnumbered.1⟩

/-! ### Steps -/

namespace Vp8Depacketizer

variable (fromRtpPacket : RtpPacket Extension → MediaKind → UInt32 → Addr →
  MediaSample Extension Addr Audio)

/-- A packet that continues a frame. -/
def Continues (call : Call Extension Addr) : Prop :=
  ∃ p : Vp8Packet, Carries call p ∧ p.isFrameStart = false

theorem continues_of_forall₂ {calls : List (Call Extension Addr)} {packets : List Vp8Packet}
    (h : List.Forall₂ Carries calls packets) (hcontinues : ∀ p ∈ packets, p.isFrameStart = false) :
    ∀ c ∈ calls, Continues c := by
  induction h with
  | nil => exact fun _ h ↦ absurd h List.not_mem_nil
  | @cons call p _ packets hcall _ ih =>
    intro c hc
    rcases List.mem_cons.mp hc with rfl | hrest
    · exact ⟨p, hcall, hcontinues p List.mem_cons_self⟩
    · exact ih (fun q hq ↦ hcontinues q (List.mem_cons_of_mem p hq)) c hrest

/-- Behind some packets of a frame. -/
def collecting (buf : List UInt8) (timestamp : UInt32) (seq : UInt16) : Vp8Depacketizer :=
  ⟨buf, timestamp, some seq, false⟩

/-- Behind a frame. -/
def done (timestamp : UInt32) : Vp8Depacketizer := ⟨[], timestamp, none, false⟩

/-- A sent packet that is admitted adds its data to the frame. -/
theorem push_carries (d : Vp8Depacketizer) {call : Call Extension Addr} {p : Vp8Packet}
    (h : Carries call p) :
    d.push fromRtpPacket call =
      match d.admitPacket p.isFrameStart call.seq call.timestamp with
      | (d, false) => (d, [])
      | (d, true) =>
        let d := { d with lastSeq := some call.seq, frameBuf := d.frameBuf ++ p.data }
        if call.marker then d.finishFrame call.packet call.addr else (d, []) := by
  have hpayload : p.bytes ≠ [] := List.cons_ne_nil _ _
  rw [push, if_neg (by rw [h.1]; exact MediaKind.noConfusion), h.2, if_neg hpayload,
    parseDescriptor_bytes]
  have hdata : p.bytes.drop p.descriptor.length = p.data := List.drop_left
  dsimp only
  rw [hdata]
  rfl

/-- A start packet begins a frame. -/
theorem push_start {d : Vp8Depacketizer} {call : Call Extension Addr} {p : Vp8Packet}
    (h : Carries call p) (hstart : p.isFrameStart = true)
    (hfresh : d.frameTimestamp = call.timestamp → d.frameBuf = []) :
    d.push fromRtpPacket call =
      if call.marker then (done call.timestamp,
        [.video (videoFrame call.timestamp p.data call.packet call.addr)])
      else (collecting p.data call.timestamp call.seq, []) := by
  have hadmit : ¬ (d.frameBuf ≠ [] ∧ call.timestamp = d.frameTimestamp) :=
    fun hsame ↦ hsame.1 (hfresh hsame.2.symm)
  rw [push_carries fromRtpPacket d h, hstart, admitPacket, if_pos rfl, if_neg hadmit]
  simp [finishFrame, resetFrame, collecting, done, p.nonempty]

/-- The next packet continues the frame. -/
theorem push_next (buf : List UInt8) {timestamp : UInt32} {seq : UInt16}
    {call : Call Extension Addr} {p : Vp8Packet} (h : Carries call p)
    (hstart : p.isFrameStart = false) (hseq : call.seq = seqSucc seq)
    (htimestamp : call.timestamp = timestamp) :
    (collecting buf timestamp seq).push fromRtpPacket call =
      if call.marker then (done timestamp,
        [.video (videoFrame timestamp (buf ++ p.data) call.packet call.addr)])
      else (collecting (buf ++ p.data) timestamp call.seq, []) := by
  rw [push_carries fromRtpPacket _ h, hstart, admitPacket, hseq, htimestamp]
  simp [finishFrame, resetFrame, collecting, done, p.nonempty]

/-- A packet that does not continue a frame is dropped. -/
theorem push_discontinuous {d : Vp8Depacketizer} {call : Call Extension Addr}
    (h : Continues call)
    (hgap : d.droppingUntilStart = true ∨ d.lastSeq.all (seqSucc · != call.seq) = true ∨
      call.timestamp ≠ d.frameTimestamp) :
    d.push fromRtpPacket call = (d.dropFrame call.seq, []) := by
  obtain ⟨p, hcarries, hstart⟩ := h
  have hadmit : d.admitPacket false call.seq call.timestamp = (d.dropFrame call.seq, false) := by
    rw [admitPacket, if_neg Bool.false_ne_true]
    apply if_pos
    rcases hgap with hdropping | hseq | htimestamp
    · exact .inl hdropping
    · refine .inr (.inl ?_)
      cases hlast : d.lastSeq with
      | none => simp
      | some last =>
        rw [hlast] at hseq
        have hne : seqSucc last ≠ call.seq := by simpa using hseq
        simpa using hne.symm
    · exact .inr (.inr htimestamp)
  rw [push_carries fromRtpPacket d hcarries, hstart, hadmit]

/-- A start packet that arrives again behind packets of its frame is dropped. -/
theorem push_start_again {buf : List UInt8} {seq : UInt16} {call : Call Extension Addr}
    {p : Vp8Packet} (h : Carries call p) (hstart : p.isFrameStart = true) (hbuf : buf ≠ []) :
    (collecting buf call.timestamp seq).push fromRtpPacket call =
      ((collecting buf call.timestamp seq).dropFrame call.seq, []) := by
  rw [push_carries fromRtpPacket _ h, hstart, admitPacket, if_pos rfl, if_pos ⟨hbuf, rfl⟩]

/-- Up to the next start nothing is given. -/
theorem outputs_dropping {calls : List (Call Extension Addr)} {d : Vp8Depacketizer}
    (hdropping : d.droppingUntilStart = true) (h : ∀ c ∈ calls, Continues c) :
    (outputs (push fromRtpPacket) d calls).flatten = [] := by
  induction calls generalizing d with
  | nil => rfl
  | cons call rest ih =>
    rw [outputs_cons, push_discontinuous fromRtpPacket (h call List.mem_cons_self)
      (.inl hdropping)]
    exact ih rfl fun c hc ↦ h c (List.mem_cons_of_mem call hc)

/-- From a packet out of its place on nothing is given of a frame. -/
theorem outputs_discontinuous {call : Call Extension Addr} {rest : List (Call Extension Addr)}
    {d : Vp8Depacketizer} (h : ∀ c ∈ call :: rest, Continues c)
    (hgap : d.droppingUntilStart = true ∨ d.lastSeq.all (seqSucc · != call.seq) = true ∨
      call.timestamp ≠ d.frameTimestamp) :
    (outputs (push fromRtpPacket) d (call :: rest)).flatten = [] := by
  rw [outputs_cons, push_discontinuous fromRtpPacket (h call List.mem_cons_self) hgap]
  exact outputs_dropping fromRtpPacket rfl fun c hc ↦ h c (List.mem_cons_of_mem call hc)

/-- When the next packet is lost, nothing is given of the rest. -/
theorem outputs_missing (buf : List UInt8) (timestamp : UInt32) {seq : UInt16}
    {calls : List (Call Extension Addr)} {copies : List Nat}
    (hseq : Consecutive (seqSucc (seqSucc seq)) calls) (hlost : copies.count 0 + 1 < 65536)
    (h : ∀ c ∈ deliver calls copies, Continues c) :
    (outputs (push fromRtpPacket) (collecting buf timestamp seq) (deliver calls copies)).flatten =
      [] := by
  cases hdelivered : deliver calls copies with
  | nil => rfl
  | cons call rest =>
    obtain ⟨k, hk, hnumber⟩ := number_of_deliver hseq hdelivered
    rw [hdelivered] at h
    apply outputs_discontinuous fromRtpPacket h
    have hne : seqSucc^[k + 1] (seqSucc seq) ≠ seqSucc seq :=
      seqSucc_iterate_ne (seqSucc seq) (k + 1) (Nat.succ_pos k) (by omega)
    rw [Function.iterate_succ_apply, ← hnumber] at hne
    simpa [collecting] using .inl hne.symm

/-- A packet that arrives again is out of its place. -/
theorem outputs_again (buf : List UInt8) {timestamp : UInt32} {call : Call Extension Addr}
    {rest : List (Call Extension Addr)} (h : ∀ c ∈ call :: rest, Continues c) :
    (outputs (push fromRtpPacket) (collecting buf timestamp call.seq) (call :: rest)).flatten =
      [] := by
  apply outputs_discontinuous fromRtpPacket h
  have hne : seqSucc call.seq ≠ call.seq :=
    seqSucc_iterate_ne call.seq 1 Nat.one_pos (by decide)
  simpa [collecting] using .inl hne

/-- Behind the start of a frame its other packets give it once, if they all arrive and only the
last one twice, or nothing. -/
theorem outputs_collecting (buf : List UInt8) {timestamp : UInt32} (seq : UInt16)
    {calls : List (Call Extension Addr)} {packets : List Vp8Packet} {copies : List Nat}
    (hcarries : List.Forall₂ Carries calls packets)
    (hcontinues : ∀ p ∈ packets, p.isFrameStart = false)
    (htimestamp : ∀ c ∈ calls, c.timestamp = timestamp) (hseq : Consecutive (seqSucc seq) calls)
    (hmarked : MarkedLast calls) (hlength : copies.length = calls.length)
    (htwice : ∀ n ∈ copies, n ≤ 2) (hlost : copies.count 0 < 65536) :
    (outputs (push fromRtpPacket) (collecting buf timestamp seq) (deliver calls copies)).flatten =
        [] ∨
      ∃ call ∈ calls, (outputs (push fromRtpPacket) (collecting buf timestamp seq)
          (deliver calls copies)).flatten =
        [.video (videoFrame timestamp (buf ++ packets.flatMap Vp8Packet.data) call.packet
          call.addr)] := by
  induction hcarries generalizing buf seq copies with
  | nil => exact absurd hmarked id
  | @cons call p rest packets hcall hrest ih =>
    obtain ⟨n, copies, rfl⟩ := List.exists_cons_of_length_eq_add_one hlength
    have hstart : p.isFrameStart = false := hcontinues p List.mem_cons_self
    have hall : ∀ c ∈ call :: rest, Continues c :=
      continues_of_forall₂ (List.Forall₂.cons hcall hrest) hcontinues
    have hdelivered : ∀ c ∈ deliver rest copies, Continues c := fun c hc ↦
      hall c (List.mem_cons_of_mem call (mem_of_mem_deliver hc))
    have hnext := push_next fromRtpPacket buf hcall hstart hseq.1
      (htimestamp call List.mem_cons_self)
    have hn : n = 0 ∨ n = 1 ∨ n = 2 := by
      have := htwice n List.mem_cons_self
      omega
    rcases hn with rfl | rfl | rfl
    · left
      rw [List.count_cons_self] at hlost
      have hnothing := outputs_missing fromRtpPacket buf timestamp hseq.2 hlost hdelivered
      exact hnothing
    · have hone : deliver (call :: rest) (1 :: copies) = call :: deliver rest copies := rfl
      rw [hone, outputs_cons, hnext]
      cases hrest with
      | nil =>
        have hmarker : call.marker = true := hmarked
        right
        refine ⟨call, List.mem_cons_self, ?_⟩
        rw [if_pos hmarker]
        simp [deliver]
      | cons hsecond hmore =>
        have hmarker : call.marker = false := hmarked.1
        rw [if_neg (by rw [hmarker]; exact Bool.false_ne_true), List.flatten_cons,
          List.nil_append]
        have hih := ih (buf ++ p.data) call.seq
          (fun q hq ↦ hcontinues q (List.mem_cons_of_mem p hq))
          (fun c hc ↦ htimestamp c (List.mem_cons_of_mem call hc)) (by rw [hseq.1]; exact hseq.2) hmarked.2 (Nat.succ.inj hlength)
          (fun m hm ↦ htwice m (List.mem_cons_of_mem 1 hm)) (by simpa using hlost)
        rcases hih with hnothing | ⟨last, hlast, hwhole⟩
        · exact .inl hnothing
        · refine .inr ⟨last, List.mem_cons_of_mem call hlast, ?_⟩
          rw [hwhole]
          simp
    · have htwo : deliver (call :: rest) (2 :: copies) = call :: call :: deliver rest copies := rfl
      have hagain : ∀ c ∈ call :: deliver rest copies, Continues c := by
        intro c hc
        rcases List.mem_cons.mp hc with rfl | hmem
        · exact hall c List.mem_cons_self
        · exact hdelivered c hmem
      rw [htwo, outputs_cons, hnext]
      cases hrest with
      | nil =>
        have hmarker : call.marker = true := hmarked
        right
        refine ⟨call, List.mem_cons_self, ?_⟩
        rw [if_pos hmarker, List.flatten_cons, outputs_discontinuous fromRtpPacket hagain
          (.inr (.inl rfl))]
        simp
      | cons hsecond hmore =>
        have hmarker : call.marker = false := hmarked.1
        left
        rw [if_neg (by rw [hmarker]; exact Bool.false_ne_true), List.flatten_cons,
          List.nil_append]
        exact outputs_again fromRtpPacket (buf ++ p.data) hagain

end Vp8Depacketizer

/-! ### Frames that arrive -/

namespace Vp8Depacketizer

/-- A packet is dropped, or its timestamp is that of the frame. -/
theorem admitPacket_cases (d : Vp8Depacketizer) (isFrameStart : Bool) (seq : UInt16)
    (timestamp : UInt32) :
    d.admitPacket isFrameStart seq timestamp = (d.dropFrame seq, false) ∨
      ∃ d', d.admitPacket isFrameStart seq timestamp = (d', true) ∧
        d'.frameTimestamp = timestamp := by
  rw [admitPacket]
  split
  · split
    · exact .inl rfl
    · exact .inr ⟨_, rfl, rfl⟩
  · dsimp only
    split
    · exact .inl rfl
    · next hcontinuous =>
      rw [not_or, not_or, not_not, not_not] at hcontinuous
      exact .inr ⟨d, rfl, hcontinuous.2.2.symm⟩

/-- A depacketizer that no packet of a timestamp continues. -/
def FreshFor (d : Vp8Depacketizer) (timestamp : UInt32) : Prop :=
  d.frameTimestamp = timestamp →
    d.frameBuf = [] ∧ (d.lastSeq = none ∨ d.droppingUntilStart = true)

/-- A packet of another timestamp leaves the depacketizer so. -/
theorem freshFor_push (d : Vp8Depacketizer) {timestamp : UInt32}
    (fromRtpPacket : RtpPacket Extension → MediaKind → UInt32 → Addr →
      MediaSample Extension Addr Audio)
    {call : Call Extension Addr} {p : Vp8Packet} (h : Carries call p)
    (hother : call.timestamp ≠ timestamp) :
    (d.push fromRtpPacket call).1.FreshFor timestamp := by
  rw [push_carries fromRtpPacket d h]
  rcases d.admitPacket_cases p.isFrameStart call.seq call.timestamp with
    hdropped | ⟨d', hadmitted, htimestamp⟩
  · rw [hdropped]
    exact fun _ ↦ ⟨rfl, .inr rfl⟩
  · rw [hadmitted]
    intro hsame
    have hframe : d'.frameTimestamp = timestamp := by
      rw [← hsame]
      dsimp only
      rw [finishFrame]
      split
      · split <;> rfl
      · rfl
    exact absurd (htimestamp.symm.trans hframe) hother

/-- Without its start nothing is given of a frame. -/
theorem outputs_unstarted (fromRtpPacket : RtpPacket Extension → MediaKind → UInt32 → Addr →
      MediaSample Extension Addr Audio)
    {d : Vp8Depacketizer} {timestamp : UInt32} (hd : d.FreshFor timestamp)
    {calls : List (Call Extension Addr)} (h : ∀ c ∈ calls, Continues c)
    (htimestamp : ∀ c ∈ calls, c.timestamp = timestamp) :
    (outputs (push fromRtpPacket) d calls).flatten = [] := by
  cases calls with
  | nil => rfl
  | cons call rest =>
    apply outputs_discontinuous fromRtpPacket h
    rw [htimestamp call List.mem_cons_self]
    by_cases hsame : d.frameTimestamp = timestamp
    · rcases (hd hsame).2 with hlast | hdropping
      · exact .inr (.inl (by rw [hlast]; rfl))
      · exact .inl hdropping
    · exact .inr (.inr (Ne.symm hsame))

end Vp8Depacketizer

namespace SentFrame

/-- The only packet of a frame has the marker. -/
theorem marker_single (sent : SentFrame Extension Addr) (h : sent.calls = []) :
    sent.call.marker = true := by
  have hmarked := sent.marked
  rw [h] at hmarked
  exact hmarked

/-- The payload of the only packet is the whole frame. -/
theorem isWhole_single (sent : SentFrame Extension Addr) (h : sent.calls = []) :
    sent.IsWhole (videoFrame sent.timestamp sent.first.data sent.call.packet sent.call.addr) := by
  have hrest : sent.rest = [] := by
    have hcarries := sent.carriesRest
    rw [h] at hcarries
    exact List.forall₂_nil_left_iff.mp hcarries
  refine ⟨?_, rfl⟩
  rw [data, hrest]
  exact (List.append_nil _).symm

end SentFrame

/-- The samples of a frame that arrives: none or one, which is whole; two of the same if its only
packet is doubled. -/
def DeliveredFrame.Answered (u : DeliveredFrame Extension Addr)
    (answer : List (List (MediaSample Extension Addr Audio))) : Prop :=
  answer.flatten = [] ∧ ¬ u.Doubled ∨ ∃ frame, u.sent.IsWhole frame ∧
    (answer.flatten = [.video frame] ∧ ¬ u.Doubled ∨
      answer.flatten = [.video frame, .video frame] ∧ u.Doubled)

/-- What a depacketizer that no packet of the frame continues answers. -/
theorem DeliveredFrame.answered (u : DeliveredFrame Extension Addr)
    (fromRtpPacket : RtpPacket Extension → MediaKind → UInt32 → Addr →
      MediaSample Extension Addr Audio) {d : Vp8Depacketizer} {seq : UInt16}
    (hd : d.FreshFor u.sent.timestamp) (hseq : Consecutive seq (u.sent.call :: u.sent.calls))
    (hlost : u.lost < 65536) :
    u.Answered (outputs (Vp8Depacketizer.push fromRtpPacket) d u.delivered) := by
  obtain ⟨sent, copies, hlengths, htwice⟩ := u
  obtain ⟨n, copies, rfl⟩ := List.exists_cons_of_length_eq_add_one hlengths
  have hlength : copies.length = sent.calls.length := Nat.succ.inj hlengths
  have hn : n = 0 ∨ n = 1 ∨ n = 2 := by
    have := htwice n List.mem_cons_self
    omega
  have hcall : sent.call.timestamp = sent.timestamp := sent.timestamps sent.call List.mem_cons_self
  have hcontinues : ∀ c ∈ deliver sent.calls copies, Vp8Depacketizer.Continues c := fun c hc ↦
    Vp8Depacketizer.continues_of_forall₂ sent.carriesRest sent.continues c (mem_of_mem_deliver hc)
  have hstart := Vp8Depacketizer.push_start fromRtpPacket sent.carries sent.start
    (fun hsame ↦ (hd (hsame.trans hcall)).1)
  rcases hn with rfl | rfl | rfl
  · -- the start is lost
    left
    refine ⟨?_, fun hdoubled ↦ by cases hdoubled⟩
    exact Vp8Depacketizer.outputs_unstarted fromRtpPacket hd hcontinues fun c hc ↦
      sent.timestamps c (List.mem_cons_of_mem sent.call (mem_of_mem_deliver hc))
  · have hone : DeliveredFrame.delivered ⟨sent, 1 :: copies, hlengths, htwice⟩ =
        sent.call :: deliver sent.calls copies := rfl
    have hdoubled : ¬ DeliveredFrame.Doubled ⟨sent, 1 :: copies, hlengths, htwice⟩ :=
      fun hdoubled ↦ by cases hdoubled
    rw [hone, outputs_cons, hstart, hcall]
    by_cases hcalls : sent.calls = []
    · refine .inr ⟨_, sent.isWhole_single hcalls, .inl ⟨?_, hdoubled⟩⟩
      rw [if_pos (sent.marker_single hcalls), hcalls]
      rfl
    · have hmarked := sent.marked.of_append [sent.call] hcalls
      rw [if_neg (by rw [sent.marked.marker_eq_false hcalls]; exact Bool.false_ne_true)]
      have hcollecting := Vp8Depacketizer.outputs_collecting fromRtpPacket sent.first.data
        sent.call.seq sent.carriesRest sent.continues
        (fun c hc ↦ sent.timestamps c (List.mem_cons_of_mem sent.call hc))
        (by rw [hseq.1]; exact hseq.2) hmarked hlength
        (fun m hm ↦ htwice m (List.mem_cons_of_mem 1 hm)) (by simpa [DeliveredFrame.lost] using hlost)
      rcases hcollecting with hnothing | ⟨last, -, hwhole⟩
      · exact .inl ⟨hnothing, hdoubled⟩
      · exact .inr ⟨_, ⟨rfl, rfl⟩, .inl ⟨hwhole, hdoubled⟩⟩
  · have htwo : DeliveredFrame.delivered ⟨sent, 2 :: copies, hlengths, htwice⟩ =
        sent.call :: sent.call :: deliver sent.calls copies := rfl
    rw [htwo, outputs_cons, hstart, hcall]
    by_cases hcalls : sent.calls = []
    · -- the only packet begins the frame again
      have hcopies : copies = [] := List.eq_nil_of_length_eq_zero (by rw [hlength, hcalls]; rfl)
      have hagain := Vp8Depacketizer.push_start fromRtpPacket sent.carries sent.start
        (d := Vp8Depacketizer.done sent.timestamp) (fun _ ↦ rfl)
      refine .inr ⟨_, sent.isWhole_single hcalls, .inr ⟨?_, congrArg (2 :: ·) hcopies⟩⟩
      rw [if_pos (sent.marker_single hcalls), outputs_cons, hagain,
        if_pos (sent.marker_single hcalls), hcalls, hcall]
      rfl
    · left
      have hmarker := sent.marked.marker_eq_false hcalls
      refine ⟨?_, ?_⟩
      · rw [if_neg (by rw [hmarker]; exact Bool.false_ne_true), ← hcall, outputs_cons,
          Vp8Depacketizer.push_start_again fromRtpPacket sent.carries sent.start
            sent.first.nonempty]
        exact Vp8Depacketizer.outputs_dropping fromRtpPacket rfl hcontinues
      · intro hdoubled
        cases hdoubled
        exact hcalls (List.eq_nil_of_length_eq_zero hlength.symm)

/-- The calls of all packets of a frame. -/
def DeliveredFrame.calls (u : DeliveredFrame Extension Addr) : List (Call Extension Addr) :=
  u.sent.call :: u.sent.calls

/-- What arrives of a frame leaves the depacketizer fresh for frames of other timestamps. -/
theorem DeliveredFrame.freshFor_stateAfter (u : DeliveredFrame Extension Addr)
    (fromRtpPacket : RtpPacket Extension → MediaKind → UInt32 → Addr →
      MediaSample Extension Addr Audio) {d : Vp8Depacketizer} {timestamp : UInt32}
    (hd : d.FreshFor timestamp) (hother : u.sent.timestamp ≠ timestamp) :
    (stateAfter (Vp8Depacketizer.push fromRtpPacket) d u.delivered).FreshFor timestamp := by
  have hcarries : ∀ c ∈ u.calls, ∃ p, Carries c p := by
    intro c hc
    rcases List.mem_cons.mp hc with rfl | hrest
    · exact ⟨u.sent.first, u.sent.carries⟩
    · obtain ⟨p, hp, -⟩ :=
        Vp8Depacketizer.continues_of_forall₂ u.sent.carriesRest u.sent.continues c hrest
      exact ⟨p, hp⟩
  have hdelivered : ∀ c ∈ u.delivered, c ∈ u.calls := fun c hc ↦ mem_of_mem_deliver hc
  generalize u.delivered = calls at hdelivered
  induction calls generalizing d with
  | nil => exact hd
  | cons call rest ih =>
    obtain ⟨p, hp⟩ := hcarries call (hdelivered call List.mem_cons_self)
    apply ih
    · apply d.freshFor_push fromRtpPacket hp
      rw [u.sent.timestamps call (hdelivered call List.mem_cons_self)]
      exact hother
    · exact fun c hc ↦ hdelivered c (List.mem_cons_of_mem call hc)

/-- The samples of frames that arrive are those of each frame, in order. -/
theorem exists_answers (fromRtpPacket : RtpPacket Extension → MediaKind → UInt32 → Addr →
      MediaSample Extension Addr Audio) {units : List (DeliveredFrame Extension Addr)}
    {seq : UInt16} (hseq : Consecutive seq (units.flatMap DeliveredFrame.calls))
    (htimestamps : (units.map (·.sent.timestamp)).Nodup)
    (hlost : (units.map DeliveredFrame.lost).sum < 65536) :
    ∃ answers, outputs (Vp8Depacketizer.push fromRtpPacket) Vp8Depacketizer.new
        (units.flatMap DeliveredFrame.delivered) = answers.flatten ∧
      List.Forall₂ DeliveredFrame.Answered units answers := by
  apply exists_outputs_flatMap _ _ _ fun d rest ↦
    (∀ u ∈ rest, d.FreshFor u.sent.timestamp) ∧
    (∃ seq, Consecutive seq (rest.flatMap DeliveredFrame.calls)) ∧
    (rest.map (·.sent.timestamp)).Nodup ∧ (rest.map DeliveredFrame.lost).sum < 65536
  · intro d u rest hready
    obtain ⟨hfresh, ⟨seq, hseq⟩, htimestamps, hlost⟩ := hready
    rw [List.flatMap_cons, Consecutive, numbered_append] at hseq
    rw [List.map_cons, List.nodup_cons] at htimestamps
    rw [List.map_cons, List.sum_cons] at hlost
    constructor
    · exact u.answered fromRtpPacket (hfresh u List.mem_cons_self) hseq.1 (by omega)
    · refine ⟨fun later hlater ↦ ?_, ⟨_, hseq.2⟩, htimestamps.2, by omega⟩
      apply u.freshFor_stateAfter fromRtpPacket (hfresh later (List.mem_cons_of_mem u hlater))
      intro hsame
      exact htimestamps.1 (List.mem_map.mpr ⟨later, hlater, hsame.symm⟩)
  · exact ⟨fun _ _ _ ↦ ⟨rfl, .inl rfl⟩, ⟨seq, hseq⟩, htimestamps, hlost⟩

section Answers

variable {units : List (DeliveredFrame Extension Addr)}
  {answers : List (List (List (MediaSample Extension Addr Audio)))}

/-- Every sample is that of a whole frame. -/
theorem isWhole_of_answers (h : List.Forall₂ DeliveredFrame.Answered units answers) :
    ∀ sample ∈ answers.flatten.flatten, ∃ u ∈ units, ∃ frame,
      sample = .video frame ∧ u.sent.IsWhole frame := by
  induction h with
  | nil => exact fun _ h ↦ absurd h List.not_mem_nil
  | @cons u answer units answers hanswered _ ih =>
    intro sample hsample
    rw [List.flatten_cons, List.flatten_append, List.mem_append] at hsample
    rcases hsample with hfirst | hrest
    · refine ⟨u, List.mem_cons_self, ?_⟩
      rcases hanswered with ⟨hnothing, -⟩ | ⟨frame, hwhole, ⟨hone, -⟩ | ⟨htwo, -⟩⟩
      · rw [hnothing] at hfirst
        exact absurd hfirst List.not_mem_nil
      · rw [hone, List.mem_singleton] at hfirst
        exact ⟨frame, hfirst, hwhole⟩
      · rw [htwo] at hfirst
        exact ⟨frame, by simpa using hfirst, hwhole⟩
    · obtain ⟨later, hlater, hframe⟩ := ih sample hrest
      exact ⟨later, List.mem_cons_of_mem u hlater, hframe⟩

/-- Where no only packet is doubled, the timestamps of the samples are some of those of the
frames, in order. -/
theorem timestamps_sublist (h : List.Forall₂ DeliveredFrame.Answered units answers)
    (hdoubled : ∀ u ∈ units, ¬ u.Doubled) :
    ((videoFrames answers.flatten.flatten).map (·.rtpTimestamp)).Sublist
      (units.map (·.sent.timestamp)) := by
  induction h with
  | nil => exact List.Sublist.slnil
  | @cons u answer units answers hanswered _ ih =>
    have hsub := ih fun later hlater ↦ hdoubled later (List.mem_cons_of_mem u hlater)
    rw [List.flatten_cons, List.flatten_append, List.map_cons, videoFrames,
      List.filterMap_append, List.map_append]
    rcases hanswered with ⟨hnothing, -⟩ | ⟨frame, hwhole, ⟨hone, -⟩ | ⟨-, htwice⟩⟩
    · rw [hnothing]
      exact hsub.cons _
    · rw [hone, ← hwhole.2]
      exact hsub.cons_cons _
    · exact absurd htwice (hdoubled u List.mem_cons_self)

/-- The timestamp of a frame whose only packet is doubled is that of two samples. -/
theorem twice_sublist (h : List.Forall₂ DeliveredFrame.Answered units answers)
    {u : DeliveredFrame Extension Addr} (hu : u ∈ units) (hdoubled : u.Doubled) :
    [u.sent.timestamp, u.sent.timestamp].Sublist
      ((videoFrames answers.flatten.flatten).map (·.rtpTimestamp)) := by
  induction h with
  | nil => exact absurd hu List.not_mem_nil
  | @cons first answer units answers hanswered _ ih =>
    rw [List.flatten_cons, List.flatten_append, videoFrames, List.filterMap_append,
      List.map_append]
    rcases List.mem_cons.mp hu with rfl | hrest
    · apply List.sublist_append_of_sublist_left
      rcases hanswered with ⟨-, honce⟩ | ⟨frame, hwhole, ⟨-, honce⟩ | ⟨htwo, -⟩⟩
      · exact absurd hdoubled honce
      · exact absurd hdoubled honce
      · rw [htwo, ← hwhole.2]
        exact List.Sublist.refl _
    · exact List.sublist_append_of_sublist_right (ih hrest)

end Answers

/-- Frames of different timestamps, of which fewer packets than there are sequence numbers get
lost and any arrive twice in a row, give only samples of whole frames and each frame at most once,
if and only if no frame's only packet arrives twice. -/
theorem vp8_frames_once_iff (fromRtpPacket : RtpPacket Extension → MediaKind → UInt32 → Addr →
      MediaSample Extension Addr Audio) (units : List (DeliveredFrame Extension Addr))
    (seq : UInt16) (hseq : Consecutive seq (units.flatMap DeliveredFrame.calls))
    (htimestamps : (units.map (·.sent.timestamp)).Nodup)
    (hlost : (units.map DeliveredFrame.lost).sum < 65536) :
    let samples := (outputs (Vp8Depacketizer.push fromRtpPacket) Vp8Depacketizer.new
      (units.flatMap DeliveredFrame.delivered)).flatten
    ((∀ sample ∈ samples, ∃ u ∈ units, ∃ frame,
        sample = .video frame ∧ u.sent.IsWhole frame) ∧
      ((videoFrames samples).map (·.rtpTimestamp)).Nodup) ↔ ∀ u ∈ units, ¬ u.Doubled := by
  obtain ⟨answers, houtputs, hanswers⟩ := exists_answers fromRtpPacket hseq htimestamps hlost
  intro samples
  have hsamples : samples = answers.flatten.flatten := congrArg List.flatten houtputs
  rw [hsamples]
  constructor
  · intro hexact u hu hdoubled
    have hnodup := hexact.2.sublist (twice_sublist hanswers hu hdoubled)
    simp at hnodup
  · intro hdoubled
    exact ⟨isWhole_of_answers hanswers,
      htimestamps.sublist (timestamps_sublist hanswers hdoubled)⟩

/-- A frame of one packet with two bytes. -/
def smallFrame (timestamp : UInt32) (seq : UInt16) : SentFrame Unit Unit where
  timestamp := timestamp
  first := ⟨0x10, none, [1, 2], by decide, by decide⟩
  rest := []
  start := by decide
  continues := by simp
  call := ⟨⟨⟨true, 96, seq, timestamp, [], none⟩, [0x10, 1, 2]⟩, 90000, (), .video⟩
  calls := []
  carries := ⟨rfl, rfl⟩
  carriesRest := .nil
  timestamps := by simp [Call.timestamp]
  marked := rfl

/-- A small frame of which the packet arrives some times. -/
def smallDelivery (timestamp : UInt32) (seq : UInt16) (n : Fin 3) : DeliveredFrame Unit Unit where
  sent := smallFrame timestamp seq
  copies := [n]
  length := rfl
  twice := by
    intro m hm
    rw [List.mem_singleton] at hm
    omega

theorem vp8_frames_once_iff_small :
    let samples := (outputs (Vp8Depacketizer.push fun _ _ _ _ ↦ MediaSample.audio ())
      Vp8Depacketizer.new ([smallDelivery 3000 65535 1, smallDelivery 6000 0 0].flatMap
        DeliveredFrame.delivered)).flatten
    ((∀ sample ∈ samples, ∃ u ∈ [smallDelivery 3000 65535 1, smallDelivery 6000 0 0], ∃ frame,
        sample = .video frame ∧ u.sent.IsWhole frame) ∧
      ((videoFrames samples).map (·.rtpTimestamp)).Nodup) ↔
        ∀ u ∈ [smallDelivery 3000 65535 1, smallDelivery 6000 0 0], ¬ u.Doubled :=
  vp8_frames_once_iff (fun _ _ _ _ ↦ MediaSample.audio ()) _ 65535
    ⟨rfl, rfl, trivial⟩ (by decide) (by decide)

/-- The only packet of a frame arrives twice: two samples of the frame. -/
theorem vp8_frame_emitted_twice :
    let units := [smallDelivery 3000 10 2]
    Consecutive 10 (units.flatMap DeliveredFrame.calls) ∧
      (units.map (·.sent.timestamp)).Nodup ∧ (units.map DeliveredFrame.lost).sum < 65536 ∧
      ¬ ((videoFrames (outputs (Vp8Depacketizer.push fun _ _ _ _ ↦ MediaSample.audio ())
        Vp8Depacketizer.new (units.flatMap DeliveredFrame.delivered)).flatten).map
          (·.rtpTimestamp)).Nodup := by
  refine ⟨⟨rfl, trivial⟩, by decide, by decide, ?_⟩
  decide +kernel

end Vidarax.Rtp
