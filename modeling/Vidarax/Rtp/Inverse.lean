import Vidarax.Rtp.Packetize

/-!
# Depacketization inverts packetization

The payloads of a carrier put its NAL units behind those of an assembly, and the packets of
an access unit that all arrive give its Annex B form at the packet with the marker.
-/

namespace Vidarax.Rtp

open Vidarax.Base

/-! ### Carriers -/

theorem asNal_of_length {bytes : List UInt8} (h : 2 ≤ bytes.length) :
    asNal bytes = some ⟨bytes, h⟩ := dif_pos h

@[simp] theorem asNal_bytes (nal : Nal) : asNal nal.bytes.1 = some nal.bytes :=
  asNal_of_length nal.bytes.2

/-- The length field of a short unit holds its length. -/
theorem naluSize_lengthField {length : Nat} (h : length < 65536) :
    naluSize (UInt8.ofNat (length / 256)) (UInt8.ofNat length) = length := by
  rw [naluSize, UInt8.toNat_ofNat', UInt8.toNat_ofNat']
  omega

/-- The NAL units of an aggregation packet come back. -/
theorem aggregated_flatMap {nals : List Nal} (h : ∀ nal ∈ nals, nal.bytes.1.length < 65536) :
    Assembly.aggregated (nals.flatMap Nal.aggregationUnit) = some (nals.map Nal.bytes) := by
  induction nals with
  | nil => simp [Assembly.aggregated]
  | cons nal nals ih =>
    have hsize := naluSize_lengthField (h nal List.mem_cons_self)
    have hrest := ih fun other hother ↦ h other (List.mem_cons_of_mem nal hother)
    rw [List.flatMap_cons, Nal.aggregationUnit, lengthField, List.append_assoc,
      List.cons_append, List.cons_append, List.nil_append, Assembly.aggregated, hsize]
    rw [if_neg (by simp), List.take_left', List.drop_left', hrest]
    · simp
    · rfl
    · rfl

/-- A NAL unit alone in its packet. -/
theorem take_single (a : Assembly) (nal : Nal) :
    a.take nal.bytes.1 = some { a with nals := a.nals ++ [nal.bytes] } := by
  have hbytes : nal.bytes.1 = nal.header0 :: nal.header1 :: nal.body := rfl
  have hnal := asNal_bytes nal
  rw [hbytes] at hnal ⊢
  simp only [Assembly.take]
  rw [if_pos nal.plain, hnal]
  rfl

/-- An aggregation packet. -/
theorem take_aggregation (a : Assembly) {header0 header1 : UInt8} {nals : List Nal}
    (htype : nalType header0 = H265_NAL_TYPE_AP) (hne : nals ≠ [])
    (hshort : ∀ nal ∈ nals, nal.bytes.1.length < 65536) :
    a.take (header0 :: header1 :: nals.flatMap Nal.aggregationUnit) =
      some { a with nals := a.nals ++ nals.map Nal.bytes } := by
  simp only [Assembly.take]
  rw [htype, if_neg (by decide), if_pos rfl, aggregated_flatMap hshort]
  simp [hne]

/-- A fragmentation unit. -/
theorem take_fragment (a : Assembly) (nal : Nal) (first last : Bool) (piece : List UInt8) :
    a.take (nal.fragment first last piece) =
      (a.fragmentAfter (fragmentHeader0 nal.header0) nal.header1
        (fuHeader nal.header0 first last) piece).map fun fragment ↦
          if last then ⟨a.nals ++ [fragment], none⟩ else { a with fragment := some fragment } := by
  rw [Nal.fragment, Assembly.take, nalType_fragmentHeader0, if_neg (by decide),
    if_neg (by decide), if_pos rfl, isEnd_fuHeader]
  cases a.fragmentAfter (fragmentHeader0 nal.header0) nal.header1
    (fuHeader nal.header0 first last) piece with
  | none => rfl
  | some fragment => cases last <;> rfl

/-- The first fragmentation unit of a NAL unit. -/
theorem take_first (nals : List NalBytes) (nal : Nal) (piece : List UInt8) :
    Assembly.take ⟨nals, none⟩ (nal.fragment true false piece) =
      some ⟨nals, some ⟨nal.header0 :: nal.header1 :: piece,
        Nat.le_add_left 2 piece.length⟩⟩ := by
  rw [take_fragment, Assembly.fragmentAfter, isStart_fuHeader, reconstructedHeader0_fragment]
  rfl

/-- A further one, or the last. -/
theorem take_next (nals : List NalBytes) (nal : Nal) (fragment : NalBytes) (last : Bool)
    (piece : List UInt8) :
    Assembly.take ⟨nals, some fragment⟩ (nal.fragment false last piece) =
      some (if last then ⟨nals ++ [fragment.extend piece], none⟩
        else ⟨nals, some (fragment.extend piece)⟩) := by
  rw [take_fragment, Assembly.fragmentAfter, isStart_fuHeader]
  rfl

/-- The fragmentation units between the first and the last. -/
theorem foldlM_take_middle (nals : List NalBytes) (nal : Nal) (middle : List (List UInt8))
    (fragment : NalBytes) :
    (middle.map (nal.fragment false false)).foldlM Assembly.take ⟨nals, some fragment⟩ =
      some ⟨nals, some (fragment.extend middle.flatten)⟩ := by
  induction middle generalizing fragment with
  | nil => simp [NalBytes.extend]
  | cons piece middle ih =>
    rw [List.map_cons, List.foldlM_cons, take_next]
    simp only [Bool.false_eq_true, if_false, Option.bind_eq_bind, Option.bind_some, ih]
    simp [NalBytes.extend]

/-- The payloads of a carrier put its NAL units behind the others. -/
theorem foldlM_take_carrier (nals : List NalBytes) (carrier : Carrier) :
    carrier.payloads.foldlM Assembly.take ⟨nals, none⟩ =
      some ⟨nals ++ carrier.nals.map Nal.bytes, none⟩ := by
  cases carrier with
  | single nal => simp [Carrier.payloads, Carrier.nals, take_single]
  | aggregation header0 header1 units htype hne hshort =>
    simp [Carrier.payloads, Carrier.nals, take_aggregation _ htype hne hshort]
  | fragments nal first middle last whole =>
    rw [Carrier.payloads, List.foldlM_cons, take_first]
    rw [Option.bind_eq_bind, Option.bind_some, List.foldlM_append, foldlM_take_middle]
    rw [Option.bind_eq_bind, Option.bind_some, List.foldlM_cons, take_next]
    simp [Carrier.nals, NalBytes.extend, Nal.bytes, ← whole]

/-- The payloads of carriers put their NAL units behind the others. -/
theorem foldlM_take_carriers (nals : List NalBytes) (carriers : List Carrier) :
    (carriers.flatMap Carrier.payloads).foldlM Assembly.take ⟨nals, none⟩ =
      some ⟨nals ++ (carriers.flatMap Carrier.nals).map Nal.bytes, none⟩ := by
  induction carriers generalizing nals with
  | nil => simp
  | cons carrier carriers ih =>
    rw [List.flatMap_cons, List.foldlM_append, foldlM_take_carrier]
    rw [Option.bind_eq_bind, Option.bind_some, ih]
    simp

/-- No payload is empty. -/
theorem Carrier.payload_ne_nil {carrier : Carrier} {payload : List UInt8}
    (h : payload ∈ carrier.payloads) : payload ≠ [] := by
  cases carrier with
  | single nal =>
    rw [Carrier.payloads, List.mem_singleton] at h
    rw [h]
    exact nal.bytes.ne_nil
  | aggregation header0 header1 nals =>
    rw [Carrier.payloads, List.mem_singleton] at h
    rw [h]
    exact List.cons_ne_nil _ _
  | fragments nal first middle last =>
    simp only [Carrier.payloads, List.mem_cons, List.mem_append, List.mem_map,
      List.not_mem_nil, or_false] at h
    rcases h with rfl | ⟨piece, -, rfl⟩ | rfl <;> exact List.cons_ne_nil _ _

/-! ### Runs of the receiver -/

namespace Receiver

variable {Extension Addr Audio : Type}

/-- The receiver keeps the timestamp of the packet seen last. -/
theorem timestamp_accept (r : Receiver) {call : Call Extension Addr} (h : call.payload ≠ []) :
    (r.accept call).1.timestamp? = some call.timestamp := by
  rw [accept, if_neg h]
  cases (r.assemblyFor call.seq call.timestamp).bind (·.take call.payload) with
  | none => rfl
  | some a => cases call.marker <;> rfl

/-- After packets of one access unit the receiver has its timestamp. -/
theorem timestamp_stateAfter {calls : List (Call Extension Addr)} {timestamp : UInt32}
    (hne : calls ≠ []) (hpayload : ∀ c ∈ calls, c.payload ≠ [])
    (htimestamp : ∀ c ∈ calls, c.timestamp = timestamp) (r : Receiver) :
    (stateAfter accept r calls).timestamp? = some timestamp := by
  induction calls generalizing r with
  | nil => contradiction
  | cons call rest ih =>
    rw [stateAfter_cons]
    by_cases hrest : rest = []
    · subst hrest
      rw [stateAfter_nil, timestamp_accept r (hpayload call List.mem_cons_self),
        htimestamp call List.mem_cons_self]
    · exact ih hrest (fun c hc ↦ hpayload c (List.mem_cons_of_mem call hc))
        (fun c hc ↦ htimestamp c (List.mem_cons_of_mem call hc)) _

/-- The idle receiver has seen no timestamp. -/
theorem timestamp_idle (timestamp : UInt32) : idle.timestamp? ≠ some timestamp := by
  simp [timestamp?]

/-- A receiver of other timestamps begins an assembly. -/
theorem assemblyFor_fresh {r : Receiver} {timestamp : UInt32}
    (h : r.timestamp? ≠ some timestamp) (seq : UInt16) :
    r.assemblyFor seq timestamp = some .empty := if_pos h

/-- A collecting receiver continues with the next packet of the unit. -/
theorem assemblyFor_next (a : Assembly) (seq : UInt16) (timestamp : UInt32) :
    (collecting a seq timestamp).assemblyFor (seqSucc seq) timestamp = some a := by
  simp [assemblyFor, timestamp?]

/-- A dropping receiver gives nothing for the rest of the unit. -/
theorem outputs_dropping {calls : List (Call Extension Addr)} {timestamp : UInt32}
    (h : ∀ c ∈ calls, c.timestamp = timestamp) (seq : UInt16) :
    outputs accept (dropping seq timestamp) calls = calls.map fun _ ↦ none := by
  induction calls generalizing seq with
  | nil => rfl
  | cons call rest ih =>
    have hcall : call.timestamp = timestamp := h call List.mem_cons_self
    have hrest := ih fun c hc ↦ h c (List.mem_cons_of_mem call hc)
    rw [outputs_cons, List.map_cons, accept, hcall]
    by_cases hpayload : call.payload = []
    · rw [if_pos hpayload, hrest]
    · rw [if_neg hpayload]
      simp [assemblyFor, timestamp?, hrest]

/-- Packets without a gap give at the marker what their payloads complete. -/
theorem outputs_consecutive {call : Call Extension Addr} {rest : List (Call Extension Addr)}
    {a : Assembly} {r : Receiver} (ha : r.assemblyFor call.seq call.timestamp = some a)
    (hseq : Consecutive (seqSucc call.seq) rest)
    (htimestamp : ∀ c ∈ rest, c.timestamp = call.timestamp)
    (hpayload : ∀ c ∈ call :: rest, c.payload ≠ []) (hmarked : MarkedLast (call :: rest)) :
    outputs accept r (call :: rest) = (call :: rest).map fun c ↦
      if c.marker then
        (((call :: rest).map Call.payload).foldlM Assembly.take a).bind Assembly.complete
      else none := by
  induction rest generalizing call r a with
  | nil =>
    have hmarker : call.marker = true := hmarked
    rw [outputs_cons, accept, if_neg (hpayload call List.mem_cons_self), ha]
    simp only [hmarker, Option.bind_some, List.map_cons, List.map_nil, List.foldlM_cons,
      List.foldlM_nil, if_true, outputs_nil]
    cases a.take call.payload <;> rfl
  | cons next rest ih =>
    obtain ⟨hmarker, hmarked⟩ := hmarked
    have hnext : next.timestamp = call.timestamp := htimestamp next List.mem_cons_self
    rw [outputs_cons, accept, if_neg (hpayload call List.mem_cons_self), ha]
    rw [List.map_cons, List.map_cons, List.foldlM_cons, Option.bind_some]
    simp only [hmarker, Bool.false_eq_true, if_false]
    cases a.take call.payload with
    | none =>
      rw [outputs_dropping htimestamp]
      simp
    | some a' =>
      have hcontinues : (collecting a' call.seq call.timestamp).assemblyFor next.seq
          next.timestamp = some a' := by
        rw [hseq.1, hnext]
        exact assemblyFor_next a' call.seq call.timestamp
      have hrest := ih hcontinues (by rw [hseq.1]; exact hseq.2)
        (fun c hc ↦ by rw [htimestamp c (List.mem_cons_of_mem next hc), hnext])
        (fun c hc ↦ hpayload c (List.mem_cons_of_mem call hc)) hmarked
      rw [List.map_cons] at hrest
      simp only [hrest, Option.bind_eq_bind, Option.bind_some]
      simp

end Receiver

/-! ### Access units -/

variable {Extension Addr Audio : Type}

theorem MarkedLast.ne_nil {calls : List (Call Extension Addr)} (h : MarkedLast calls) :
    calls ≠ [] := by
  rintro rfl
  exact h

namespace SentUnit

theorem payload_ne_nil (sent : SentUnit Extension Addr) :
    ∀ call ∈ sent.calls, call.payload ≠ [] := by
  intro call hcall
  have hmem : call.payload ∈ sent.calls.map Call.payload := List.mem_map_of_mem hcall
  rw [sent.payloads] at hmem
  obtain ⟨carrier, -, hpayload⟩ := List.mem_flatMap.mp hmem
  exact Carrier.payload_ne_nil hpayload

theorem kind_ne_audio (sent : SentUnit Extension Addr) :
    ∀ call ∈ sent.calls, call.kind ≠ .audio := by
  intro call hcall
  rw [sent.video call hcall]
  exact MediaKind.noConfusion

/-- What carriers of one or more NAL units complete. -/
theorem complete_carriers (carriers : List Carrier) (h : carriers.flatMap Carrier.nals ≠ []) :
    ((carriers.flatMap Carrier.payloads).foldlM Assembly.take .empty).bind Assembly.complete =
      some (annexB ((carriers.flatMap Carrier.nals).map Nal.bytes)) := by
  rw [Assembly.empty, foldlM_take_carriers, Option.bind_some, Assembly.complete,
    if_pos ⟨by simpa using h, rfl⟩]
  rfl

/-- All packets of an access unit give it whole at the marker. -/
theorem outputs_accept (sent : SentUnit Extension Addr) {r : Receiver} {seq : UInt16}
    (hr : r.timestamp? ≠ some sent.unit.timestamp) (hseq : Consecutive seq sent.calls) :
    outputs Receiver.accept r sent.calls =
      sent.calls.map fun c ↦ if c.marker then some sent.unit.annexB else none := by
  have hpayloads := sent.payloads
  have hpayload := sent.payload_ne_nil
  have htimestamp := sent.timestamp
  have hmarked := sent.marked
  have hwhole := complete_carriers sent.carriers
    (by rw [sent.covers]; exact sent.unit.nonempty)
  rw [sent.covers, ← hpayloads] at hwhole
  generalize sent.calls = calls at *
  cases calls with
  | nil => rfl
  | cons call rest =>
    have hcall : call.timestamp = sent.unit.timestamp := htimestamp call List.mem_cons_self
    rw [Receiver.outputs_consecutive (a := .empty) _ _ _ hpayload hmarked, hwhole]
    · rfl
    · rw [hcall]
      exact Receiver.assemblyFor_fresh hr call.seq
    · rw [hseq.1]
      exact hseq.2
    · intro c hc
      rw [hcall, htimestamp c (List.mem_cons_of_mem call hc)]

/-- The samples of the depacketizer for them. -/
theorem outputs_push (sent : SentUnit Extension Addr)
    (fromRtpPacket : RtpPacket Extension → MediaKind → UInt32 → Addr →
      MediaSample Extension Addr Audio) {r : Receiver} {seq : UInt16}
    (hr : r.timestamp? ≠ some sent.unit.timestamp) (hseq : Consecutive seq sent.calls) :
    outputs (H265Depacketizer.push fromRtpPacket) r.depacketizer sent.calls = sent.samples := by
  rw [H265Depacketizer.outputs_push fromRtpPacket sent.kind_ne_audio, sent.outputs_accept hr hseq,
    List.zipWith_map_right, List.zipWith_self, samples]
  apply List.map_congr_left
  intro call hcall
  rw [← sent.timestamp call hcall]
  cases call.marker <;> rfl

end SentUnit

/-- A depacketizer ready for access units that all arrive, where the next one has another
timestamp than the packet seen last. -/
def ReadyFor (d : H265Depacketizer) (units : List (SentUnit Extension Addr)) : Prop :=
  ∃ r : Receiver, r.depacketizer = d ∧
    (∀ next ∈ units.head?, r.timestamp? ≠ some next.unit.timestamp) ∧
    (∃ seq, Consecutive seq (units.flatMap SentUnit.calls)) ∧
    units.IsChain fun a b ↦ a.unit.timestamp ≠ b.unit.timestamp

/-- An access unit that arrives leaves the depacketizer ready for the rest. -/
theorem ReadyFor.next {d : H265Depacketizer} {sent : SentUnit Extension Addr}
    {rest : List (SentUnit Extension Addr)} (h : ReadyFor d (sent :: rest))
    (fromRtpPacket : RtpPacket Extension → MediaKind → UInt32 → Addr →
      MediaSample Extension Addr Audio) :
    outputs (H265Depacketizer.push fromRtpPacket) d sent.calls = sent.samples ∧
      ReadyFor (stateAfter (H265Depacketizer.push fromRtpPacket) d sent.calls) rest := by
  obtain ⟨r, rfl, hfresh, ⟨seq, hseq⟩, hchain⟩ := h
  rw [List.flatMap_cons, Consecutive, numbered_append] at hseq
  rw [List.isChain_cons] at hchain
  refine ⟨sent.outputs_push fromRtpPacket (hfresh sent rfl) hseq.1, _,
    (H265Depacketizer.stateAfter_push fromRtpPacket sent.kind_ne_audio r).symm, ?_,
    ⟨_, hseq.2⟩, hchain.2⟩
  intro next hnext hsame
  rw [Receiver.timestamp_stateAfter sent.marked.ne_nil sent.payload_ne_nil sent.timestamp r]
    at hsame
  exact hchain.1 next hnext (Option.some.inj hsame)

/-- Depacketization inverts packetization: when all packets of access units arrive in order,
where neighbours have different timestamps, exactly the packets with a marker give a sample,
which holds the whole access unit in Annex B form. -/
theorem depacketize_packetize (fromRtpPacket : RtpPacket Extension → MediaKind → UInt32 → Addr →
      MediaSample Extension Addr Audio)
    (sent : List (SentUnit Extension Addr)) (seq : UInt16)
    (hseq : Consecutive seq (sent.flatMap SentUnit.calls))
    (htimestamps : sent.IsChain fun a b ↦ a.unit.timestamp ≠ b.unit.timestamp) :
    outputs (H265Depacketizer.push fromRtpPacket) .new (sent.flatMap SentUnit.calls) =
      sent.flatMap SentUnit.samples := by
  have hready : ReadyFor .new sent :=
    ⟨.idle, rfl, fun next _ ↦ Receiver.timestamp_idle next.unit.timestamp, ⟨seq, hseq⟩, htimestamps⟩
  exact outputs_flatMap _ SentUnit.calls SentUnit.samples ReadyFor
    (fun _ _ _ h ↦ h.next fromRtpPacket) sent .new hready

/-- Two access units, the first in an aggregation packet and three fragmentation units, with
sequence numbers that wrap. -/
theorem depacketize_packetize_wrapping :
    let parameters : List Nal := [⟨0x40, 1, [0xaa], by decide⟩, ⟨0x44, 1, [0xbb], by decide⟩]
    let slice : Nal := ⟨0x27, 1, [0xaa, 0xbb, 0xcc], by decide⟩
    let next : Nal := ⟨0x02, 1, [0xdd], by decide⟩
    let sent : List (SentUnit Unit Unit) :=
      [send ⟨100, parameters ++ [slice], by decide⟩
        [.aggregation 0x60 1 parameters (by decide) (by decide) (by decide),
          .fragments slice [0xaa] [[0xbb]] [0xcc] rfl] rfl () 65534,
        send ⟨200, [next], by decide⟩ [.single next] rfl () 2]
    outputs (H265Depacketizer.push fun packet _ _ _ ↦ MediaSample.audio packet) .new
      (sent.flatMap SentUnit.calls) = sent.flatMap SentUnit.samples := by
  intro parameters slice next sent
  apply depacketize_packetize _ sent 65534
  · exact ⟨rfl, rfl, rfl, rfl, rfl, trivial⟩
  · apply List.IsChain.cons_cons
    · decide
    · exact List.IsChain.singleton _

end Vidarax.Rtp
