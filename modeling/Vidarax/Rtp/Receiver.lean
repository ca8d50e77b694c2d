import Vidarax.Base.Transducer
import Vidarax.Rtp.H265

/-!
# The receiver of access units

What the H.265 depacketizer is for: it collects the NAL units of the access unit under the
current timestamp and drops the unit at the first packet that is missing or malformed. NAL
units and the fragment in progress have their two header bytes by type. The depacketizer is
this receiver with the units laid out in its buffers.
-/

namespace Vidarax.Rtp

open Vidarax.Base

/-- A NAL unit has at least the two bytes of its header. -/
abbrev NalBytes := { bytes : List UInt8 // 2 ≤ bytes.length }

/-- Bytes as a NAL unit. -/
def asNal (bytes : List UInt8) : Option NalBytes :=
  if h : 2 ≤ bytes.length then some ⟨bytes, h⟩ else none

/-- A NAL unit with more bytes. -/
def NalBytes.extend (nal : NalBytes) (bytes : List UInt8) : NalBytes :=
  ⟨nal.1 ++ bytes, by rw [List.length_append]; exact Nat.le_add_right_of_le nal.2⟩

theorem NalBytes.ne_nil (nal : NalBytes) : nal.1 ≠ [] :=
  List.ne_nil_of_length_pos (Nat.lt_of_lt_of_le Nat.two_pos nal.2)

/-- Annex B form of NAL units. -/
def annexB (nals : List NalBytes) : List UInt8 :=
  ANNEX_B_START_CODE.intercalate (nals.map Subtype.val)

/-- The part of an access unit received so far: its NAL units, and the NAL unit whose
fragments are coming in. -/
structure Assembly where
  nals : List NalBytes
  fragment : Option NalBytes

namespace Assembly

/-- Before the first packet. -/
def empty : Assembly := ⟨[], none⟩

/-- Data of an access unit that is complete after its last packet. -/
def complete (a : Assembly) : Option (List UInt8) :=
  if a.nals ≠ [] ∧ a.fragment = none then some (annexB a.nals) else none

/-- NAL units of an aggregation packet behind its payload header. -/
def aggregated : List UInt8 → Option (List NalBytes)
  | [] => some []
  | [_] => none
  | size0 :: size1 :: rest =>
    if rest.length < naluSize size0 size1 then none
    else do
      let nal ← asNal (rest.take (naluSize size0 size1))
      let nals ← aggregated (rest.drop (naluSize size0 size1))
      some (nal :: nals)
  termination_by payload => payload.length
  decreasing_by
    rw [List.length_drop, List.length_cons, List.length_cons]
    omega

/-- The fragment in progress after a fragmentation unit, where it fits. -/
def fragmentAfter (a : Assembly) (payloadHeader0 payloadHeader1 fuHeader : UInt8)
    (fuPayload : List UInt8) : Option NalBytes :=
  match isStart fuHeader, a.fragment with
  | true, none => asNal ([reconstructedHeader0 payloadHeader0 fuHeader,
      payloadHeader1] ++ fuPayload)
  | false, some fragment => some (fragment.extend fuPayload)
  | _, _ => none

/-- The assembly after a payload, where the payload fits. -/
def take (a : Assembly) : List UInt8 → Option Assembly
  | payloadHeader0 :: payloadHeader1 :: rest =>
    let type := nalType payloadHeader0
    if type ≤ 47 then do
      let nal ← asNal (payloadHeader0 :: payloadHeader1 :: rest)
      some { a with nals := a.nals ++ [nal] }
    else if type = H265_NAL_TYPE_AP then do
      let nals ← aggregated rest
      if nals = [] then none else some { a with nals := a.nals ++ nals }
    else if type = H265_NAL_TYPE_FU then
      match rest with
      | fuHeader :: fuPayload => do
        let nal ← a.fragmentAfter payloadHeader0 payloadHeader1 fuHeader fuPayload
        if isEnd fuHeader then some ⟨a.nals ++ [nal], none⟩
        else some { a with fragment := some nal }
      | [] => none
    else none
  | _ => none

end Assembly

/-- A receiver that has seen no packet, collects a unit, or drops the rest of one. -/
inductive Receiver where
  | idle
  | collecting (assembly : Assembly) (seq : UInt16) (timestamp : UInt32)
  | dropping (seq : UInt16) (timestamp : UInt32)

namespace Receiver

/-- Timestamp of the packet seen last. -/
def timestamp? : Receiver → Option UInt32
  | idle => none
  | collecting _ _ timestamp => some timestamp
  | dropping _ timestamp => some timestamp

/-- The assembly that a packet continues or begins, unless it is dropped. -/
def assemblyFor (r : Receiver) (seq : UInt16) (timestamp : UInt32) : Option Assembly :=
  if r.timestamp? ≠ some timestamp then some .empty
  else
    match r with
    | collecting assembly last _ => if seq = seqSucc last then some assembly else none
    | _ => none

variable {Extension Addr Audio : Type}

/-- The receiver after a packet, and the data of the access unit that it completes. -/
def accept (r : Receiver) (call : Call Extension Addr) : Receiver × Option (List UInt8) :=
  if call.payload = [] then (r, none)
  else
    match (r.assemblyFor call.seq call.timestamp).bind (·.take call.payload) with
    | none => (dropping call.seq call.timestamp, none)
    | some assembly =>
      if call.marker then (dropping call.seq call.timestamp, assembly.complete)
      else (collecting assembly call.seq call.timestamp, none)

/-- The depacketizer of a receiver. -/
def depacketizer : Receiver → H265Depacketizer
  | idle => .new
  | collecting assembly seq timestamp =>
    ⟨annexB assembly.nals, assembly.fragment.elim [] Subtype.val, timestamp, some seq, false⟩
  | dropping seq timestamp => ⟨[], [], timestamp, some seq, true⟩

end Receiver

/-! ### Units in the buffers -/

@[simp] theorem annexB_nil : annexB [] = [] := rfl

/-- The Annex B form of NAL units is empty only if there are none. -/
@[simp] theorem annexB_eq_nil_iff {nals : List NalBytes} : annexB nals = [] ↔ nals = [] := by
  constructor
  · intro h
    cases nals with
    | nil => rfl
    | cons nal nals =>
      have hempty : nal.1 = [] := by
        cases nals with
        | nil => simpa [annexB] using h
        | cons next nals =>
          rw [annexB, List.map_cons, List.map_cons, List.intercalate_cons_cons] at h
          exact (List.append_eq_nil_iff.mp (List.append_eq_nil_iff.mp h).1).1
      exact absurd hempty nal.ne_nil
  · rintro rfl
    rfl

/-- Two parts in Annex B form are joined by the start code. -/
theorem annexB_append {front back : List NalBytes} (hfront : front ≠ []) (hback : back ≠ []) :
    annexB (front ++ back) = annexB front ++ ANNEX_B_START_CODE ++ annexB back := by
  induction front with
  | nil => contradiction
  | cons nal front ih =>
    cases front with
    | nil =>
      rw [annexB, List.singleton_append, List.map_cons]
      rw [List.intercalate_cons_of_ne_nil (by rwa [ne_eq, List.map_eq_nil_iff])]
      simp [annexB]
    | cons next front =>
      have hcons : ∀ rest : List NalBytes, annexB (nal :: next :: rest) =
          nal.1 ++ ANNEX_B_START_CODE ++ annexB (next :: rest) := fun rest ↦ by
        simp only [annexB, List.map_cons, List.intercalate_cons_cons]
      have hrest := ih (List.cons_ne_nil next front)
      rw [List.cons_append] at hrest
      rw [List.cons_append, List.cons_append, hcons, hcons, hrest]
      simp only [List.append_assoc]

@[simp] theorem annexB_singleton (nal : NalBytes) : annexB [nal] = nal.1 := by
  simp [annexB]

namespace H265Depacketizer

/-- The depacketizer with the units of an assembly in its buffers. -/
def holding (d : H265Depacketizer) (a : Assembly) : H265Depacketizer :=
  { d with
    accessUnitBuf := annexB a.nals
    fragmentBuf := a.fragment.elim [] Subtype.val }

@[simp] theorem dropUnit_holding (d : H265Depacketizer) (a : Assembly) :
    (d.holding a).dropUnit = d.dropUnit := rfl

/-- A NAL unit behind those of the assembly. -/
theorem appendNal_holding (d : H265Depacketizer) (a : Assembly) (bytes : List UInt8) :
    (d.holding a).appendNal bytes = match asNal bytes with
      | some nal => (d.holding { a with nals := a.nals ++ [nal] }, true)
      | none => (d.dropUnit, false) := by
  rw [appendNal, asNal]
  by_cases h : 2 ≤ bytes.length
  · rw [if_neg (Nat.not_lt.mpr h), dif_pos h]
    by_cases hnals : a.nals = []
    · simp [holding, hnals]
    · simp [holding, hnals, annexB_append]
  · rw [if_pos (Nat.lt_of_not_le h), dif_neg h]
    rfl

/-- A fragmented NAL unit behind those of the assembly. -/
theorem appendFragmentNal_holding (d : H265Depacketizer) (nals : List NalBytes)
    (nal : NalBytes) : (d.holding ⟨nals, some nal⟩).appendFragmentNal =
      d.holding ⟨nals ++ [nal], none⟩ := by
  rw [appendFragmentNal]
  by_cases hnals : nals = []
  · simp [holding, hnals]
  · simp [holding, hnals, annexB_append]

/-- The NAL units of an aggregation packet behind those of the assembly. -/
theorem pushAggregationUnits_holding (d : H265Depacketizer) (units : List UInt8)
    (a : Assembly) (sawNal : Bool) :
    (d.holding a).pushAggregationUnits sawNal units = match Assembly.aggregated units with
      | some nals => if sawNal = false ∧ nals = [] then (d.dropUnit, false)
        else (d.holding { a with nals := a.nals ++ nals }, true)
      | none => (d.dropUnit, false) := by
  induction units using Assembly.aggregated.induct generalizing a sawNal with
  | case1 => cases sawNal <;> simp [pushAggregationUnits, Assembly.aggregated]
  | case2 => simp [pushAggregationUnits, Assembly.aggregated]
  | case3 size0 size1 rest hshort => simp [pushAggregationUnits, Assembly.aggregated, hshort]
  | case4 size0 size1 rest hlong ih =>
    rw [pushAggregationUnits, Assembly.aggregated, if_neg hlong, if_neg hlong,
      appendNal_holding]
    cases asNal (rest.take (naluSize size0 size1)) with
    | none => rfl
    | some nal =>
      simp only [ih, Option.bind_eq_bind, Option.bind_some]
      cases Assembly.aggregated (rest.drop (naluSize size0 size1)) with
      | none => rfl
      | some nals => simp

/-- A fragmentation unit behind the fragments of the assembly. -/
theorem pushFragmentationUnit_holding (d : H265Depacketizer) (a : Assembly)
    (header0 header1 fuHeader : UInt8) (fuPayload : List UInt8) :
    (d.holding a).pushFragmentationUnit (header0 :: header1 :: fuHeader :: fuPayload) =
      match a.fragmentAfter header0 header1 fuHeader fuPayload with
      | some nal =>
        (if isEnd fuHeader then d.holding ⟨a.nals ++ [nal], none⟩
          else d.holding { a with fragment := some nal }, true)
      | none => (d.dropUnit, false) := by
  obtain ⟨nals, fragment⟩ := a
  rw [pushFragmentationUnit, Assembly.fragmentAfter]
  cases hstart : isStart fuHeader with
  | true =>
    cases fragment with
    | some fragment => simp [holding, fragment.ne_nil, dropUnit, resetAccessUnit]
    | none =>
      have hnal : asNal ([reconstructedHeader0 header0 fuHeader, header1] ++ fuPayload) =
          some ⟨[reconstructedHeader0 header0 fuHeader, header1] ++ fuPayload,
            Nat.le_add_left 2 fuPayload.length⟩ := dif_pos _
      rw [hnal, if_neg (by simp [holding]), if_neg (by simp)]
      dsimp only
      rw [← appendFragmentNal_holding]
      rfl
  | false =>
    cases fragment with
    | none => simp [holding, dropUnit, resetAccessUnit]
    | some fragment =>
      rw [if_neg (by simp), if_neg (by simp [holding, fragment.ne_nil])]
      dsimp only
      rw [← appendFragmentNal_holding]
      rfl

/-- A payload behind the assembly. -/
theorem parsePayload_holding (d : H265Depacketizer) (a : Assembly) (payload : List UInt8) :
    (d.holding a).parsePayload payload = match a.take payload with
      | some a' => (d.holding a', true)
      | none => (d.dropUnit, false) := by
  match payload with
  | [] => rfl
  | [_] => rfl
  | header0 :: header1 :: rest =>
    simp only [parsePayload, Assembly.take]
    by_cases hsingle : nalType header0 ≤ 47
    · rw [if_pos hsingle, if_pos hsingle, appendNal_holding]
      cases asNal (header0 :: header1 :: rest) <;> rfl
    rw [if_neg hsingle, if_neg hsingle]
    by_cases haggregation : nalType header0 = H265_NAL_TYPE_AP
    · rw [if_pos haggregation, if_pos haggregation, pushAggregationPacket,
        List.drop_succ_cons, List.drop_succ_cons, List.drop_zero, pushAggregationUnits_holding]
      cases Assembly.aggregated rest with
      | none => rfl
      | some nals => by_cases hnals : nals = [] <;> simp [hnals]
    rw [if_neg haggregation, if_neg haggregation]
    by_cases hfragment : nalType header0 = H265_NAL_TYPE_FU
    · rw [if_pos hfragment, if_pos hfragment]
      cases rest with
      | nil => rfl
      | cons fuHeader fuPayload =>
        rw [pushFragmentationUnit_holding]
        dsimp only
        cases a.fragmentAfter header0 header1 fuHeader fuPayload with
        | none => rfl
        | some nal => cases isEnd fuHeader <;> simp
    · rw [if_neg hfragment, if_neg hfragment]
      rfl

/-- Which assembly a packet is taken into. -/
theorem admitPacket_depacketizer (r : Receiver) (seq : UInt16) (timestamp : UInt32) :
    r.depacketizer.admitPacket seq timestamp = match r.assemblyFor seq timestamp with
      | some a => (holding ⟨[], [], timestamp, some seq, false⟩ a, true)
      | none => ((Receiver.dropping seq timestamp).depacketizer, false) := by
  cases r with
  | idle => rfl
  | collecting a last current =>
    simp only [admitPacket, Receiver.depacketizer, Receiver.assemblyFor, Receiver.timestamp?]
    by_cases htimestamp : timestamp = current
    · subst htimestamp
      by_cases hseq : seq = seqSucc last <;> simp [hseq, holding, dropUnit, resetAccessUnit]
    · have hne : current ≠ timestamp := fun h ↦ htimestamp h.symm
      simp [htimestamp, hne, holding, resetAccessUnit, Assembly.empty]
  | dropping last current =>
    simp only [admitPacket, Receiver.depacketizer, Receiver.assemblyFor, Receiver.timestamp?]
    by_cases htimestamp : timestamp = current
    · subst htimestamp
      simp
    · have hne : current ≠ timestamp := fun h ↦ htimestamp h.symm
      simp [htimestamp, hne, holding, resetAccessUnit, Assembly.empty]

variable {Extension Addr Audio : Type}
  (fromRtpPacket : RtpPacket Extension → MediaKind → UInt32 → Addr →
    MediaSample Extension Addr Audio)

/-- Samples of a packet that completes an access unit with some data, or of another one. -/
def samples (call : Call Extension Addr) (data : Option (List UInt8)) :
    List (MediaSample Extension Addr Audio) :=
  data.toList.map fun data ↦ .video (videoFrame call.timestamp data call.packet call.addr)

/-- The end of an access unit. -/
theorem finishUnit_holding (a : Assembly) (call : Call Extension Addr) :
    (holding ⟨[], [], call.timestamp, some call.seq, false⟩ a).finishUnit call.packet call.addr =
      ((Receiver.dropping call.seq call.timestamp).depacketizer,
        (samples call a.complete : List (MediaSample Extension Addr Audio))) := by
  obtain ⟨nals, fragment⟩ := a
  rw [finishUnit, Assembly.complete]
  cases fragment with
  | none =>
    by_cases hnals : nals = []
    · rw [if_pos (.inl (by simp [holding, hnals])), if_neg (by simp [hnals])]
      rfl
    · rw [if_neg (by simp [holding, hnals]), if_pos ⟨hnals, rfl⟩]
      rfl
  | some fragment =>
    rw [if_pos (.inr fragment.ne_nil), if_neg (by simp)]
    rfl

/-- The depacketizer does with a packet of video what the receiver does. -/
theorem push_depacketizer (r : Receiver) (call : Call Extension Addr)
    (hkind : call.kind ≠ .audio) :
    r.depacketizer.push fromRtpPacket call =
      ((r.accept call).1.depacketizer, samples call (r.accept call).2) := by
  rw [push, Receiver.accept, if_neg hkind]
  by_cases hpayload : call.payload = []
  · rw [if_pos hpayload, if_pos hpayload]
    rfl
  rw [if_neg hpayload, if_neg hpayload, admitPacket_depacketizer]
  cases r.assemblyFor call.seq call.timestamp with
  | none => rfl
  | some a =>
    simp only [parsePayload_holding, Option.bind_some]
    cases a.take call.payload with
    | none => rfl
    | some a' =>
      simp only [finishUnit_holding]
      cases call.marker <;> rfl

/-- A run of the depacketizer over packets of video is a run of the receiver. -/
theorem outputs_push {calls : List (Call Extension Addr)} (hkind : ∀ c ∈ calls, c.kind ≠ .audio)
    (r : Receiver) : outputs (push fromRtpPacket) r.depacketizer calls =
      List.zipWith samples calls (outputs Receiver.accept r calls) :=
  outputs_simulation (push_depacketizer fromRtpPacket) hkind r

/-- The depacketizer after packets of video. -/
theorem stateAfter_push {calls : List (Call Extension Addr)}
    (hkind : ∀ c ∈ calls, c.kind ≠ .audio) (r : Receiver) :
    stateAfter (push fromRtpPacket) r.depacketizer calls =
      (stateAfter Receiver.accept r calls).depacketizer :=
  stateAfter_simulation (push_depacketizer fromRtpPacket) hkind r

end H265Depacketizer

end Vidarax.Rtp
