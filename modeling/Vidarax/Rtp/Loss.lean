import Mathlib.Algebra.Order.BigOperators.Group.List
import Mathlib.Algebra.Order.Group.Nat
import Vidarax.Rtp.Inverse

/-!
# Depacketization under loss

Packets of an access unit that get lost. After a gap or without its last packet a unit gives
no sample. A unit that lost only packets at its front gives its remaining NAL units as if
they were the whole, where the first packet that arrives begins a NAL unit.
-/

namespace Vidarax.Rtp

open Vidarax.Base

variable {Extension Addr Audio : Type}

/-- An access unit of which some packets arrive, in order. -/
structure ReceivedUnit (Extension Addr : Type) where
  sent : SentUnit Extension Addr
  received : List (Call Extension Addr)
  sublist : received.Sublist sent.calls

namespace ReceivedUnit

/-- How many packets are lost. -/
def lost (u : ReceivedUnit Extension Addr) : Nat := u.sent.calls.length - u.received.length

/-- The packets of a first part of the carriers are lost, and only these. -/
def LosesFront (u : ReceivedUnit Extension Addr) : Prop :=
  ∃ front back, u.sent.carriers = front ++ back ∧ front ≠ [] ∧ back ≠ [] ∧
    u.received = u.sent.calls.drop (front.flatMap Carrier.payloads).length

end ReceivedUnit

/-- A frame with the whole of an access unit and its timestamp. -/
def SentUnit.IsWhole (sent : SentUnit Extension Addr) (frame : VideoFrame Extension Addr) : Prop :=
  frame.data = sent.unit.annexB ∧ frame.rtpTimestamp = sent.unit.timestamp

/-! ### Gaps -/

namespace Receiver

/-- Receivers that have not seen a timestamp last do the same with its packets. -/
theorem outputs_fresh {r r' : Receiver} {calls : List (Call Extension Addr)} {timestamp : UInt32}
    (hr : r.timestamp? ≠ some timestamp) (hr' : r'.timestamp? ≠ some timestamp)
    (hpayload : ∀ c ∈ calls, c.payload ≠ []) (htimestamp : ∀ c ∈ calls, c.timestamp = timestamp) :
    outputs accept r calls = outputs accept r' calls := by
  cases calls with
  | nil => rfl
  | cons call rest =>
    have hsame : r.accept call = r'.accept call := by
      rw [accept, accept, if_neg (hpayload call List.mem_cons_self),
        if_neg (hpayload call List.mem_cons_self), htimestamp call List.mem_cons_self,
        assemblyFor_fresh hr, assemblyFor_fresh hr']
    rw [outputs_cons, outputs_cons, hsame]

/-- A packet without a marker gives nothing. -/
theorem accept_unmarked (r : Receiver) {call : Call Extension Addr} (h : call.marker = false) :
    (r.accept call).2 = none := by
  rw [accept]
  split
  · rfl
  · rw [h]
    cases (r.assemblyFor call.seq call.timestamp).bind (·.take call.payload) <;> rfl

/-- After a packet the receiver collects behind it or drops the rest. -/
theorem accept_state (r : Receiver) {call : Call Extension Addr} (h : call.payload ≠ []) :
    (∃ a, (r.accept call).1 = collecting a call.seq call.timestamp) ∨
      (r.accept call).1 = dropping call.seq call.timestamp := by
  rw [accept, if_neg h]
  cases (r.assemblyFor call.seq call.timestamp).bind (·.take call.payload) with
  | none => exact .inr rfl
  | some a =>
    cases call.marker with
    | true => exact .inr rfl
    | false => exact .inl ⟨a, rfl⟩

/-- A packet behind a gap is dropped with the rest of its unit. -/
theorem accept_gap (a : Assembly) {seq : UInt16} {call : Call Extension Addr}
    (hseq : call.seq ≠ seqSucc seq) (hpayload : call.payload ≠ []) :
    (collecting a seq call.timestamp).accept call = (dropping call.seq call.timestamp, none) := by
  rw [accept, if_neg hpayload]
  simp [assemblyFor, timestamp?, hseq]

/-- What follows a packet gives nothing when some packet of the rest is lost. -/
theorem outputs_lost (a : Assembly) {seq : UInt16} {timestamp : UInt32}
    {received calls : List (Call Extension Addr)} (hsub : received.Sublist calls)
    (hseq : Consecutive (seqSucc seq) calls) (htimestamp : ∀ c ∈ calls, c.timestamp = timestamp)
    (hpayload : ∀ c ∈ calls, c.payload ≠ []) (hmarked : MarkedLast calls)
    (hne : received ≠ calls) (hlost : calls.length < received.length + 65536) :
    outputs accept (collecting a seq timestamp) received = received.map fun _ ↦ none := by
  induction hsub generalizing a seq with
  | slnil => contradiction
  | @cons received calls missing hsub ih =>
    cases received with
    | nil => rfl
    | cons call rest =>
      have hcalls : ∀ c ∈ call :: rest, c ∈ calls := fun c hc ↦ hsub.subset hc
      have hcall : call.timestamp = timestamp :=
        htimestamp call (List.mem_cons_of_mem missing (hcalls call List.mem_cons_self))
      have hgap : call.seq ≠ seqSucc seq :=
        Numbered.number_ne_of_lost seqSucc_iterate_ne hseq hsub hlost
      subst hcall
      rw [outputs_cons, accept_gap a hgap
        (hpayload call (List.mem_cons_of_mem missing (hcalls call List.mem_cons_self)))]
      rw [outputs_dropping fun c hc ↦
        htimestamp c (List.mem_cons_of_mem missing (hcalls c (List.mem_cons_of_mem call hc)))]
      rfl
  | @cons_cons received calls call hsub ih =>
    have hrest : received ≠ calls := fun h ↦ hne (by rw [h])
    have hcalls : calls ≠ [] := by
      rintro rfl
      exact hrest (List.sublist_nil.mp hsub)
    have hmarker := hmarked.marker_eq_false hcalls
    have hcall : call.timestamp = timestamp := htimestamp call List.mem_cons_self
    have htimestamp' : ∀ c ∈ calls, c.timestamp = timestamp :=
      fun c hc ↦ htimestamp c (List.mem_cons_of_mem call hc)
    have hshorter : calls.length < received.length + 65536 := by
      rw [List.length_cons, List.length_cons] at hlost
      omega
    rw [outputs_cons, accept_unmarked _ hmarker, List.map_cons]
    obtain ⟨a', hstate⟩ | hstate := accept_state (collecting a seq timestamp)
      (hpayload call List.mem_cons_self)
    · rw [hstate, hcall, hseq.1, ih a' hseq.2 htimestamp'
        (fun c hc ↦ hpayload c (List.mem_cons_of_mem call hc))
        (MarkedLast.of_append [call] hmarked hcalls) hrest hshorter]
    · rw [hstate, hcall, outputs_dropping fun c hc ↦ htimestamp' c (hsub.subset hc)]

end Receiver

/-! ### One access unit -/

/-- The payloads of a carrier without the first ones do not begin a NAL unit. -/
theorem foldlM_take_inside {carrier : Carrier} {inside : List (List UInt8)}
    (h : inside <:+ carrier.payloads) (hne : inside ≠ []) (hpart : inside ≠ carrier.payloads) :
    inside.foldlM Assembly.take .empty = none := by
  cases carrier with
  | single nal =>
    rcases List.suffix_cons_iff.mp h with hall | hnone
    · exact absurd hall hpart
    · exact absurd (List.suffix_nil.mp hnone) hne
  | aggregation header0 header1 nals =>
    rcases List.suffix_cons_iff.mp h with hall | hnone
    · exact absurd hall hpart
    · exact absurd (List.suffix_nil.mp hnone) hne
  | fragments nal first middle last =>
    rcases List.suffix_cons_iff.mp h with hall | hrest
    · exact absurd hall hpart
    cases inside with
    | nil => contradiction
    | cons payload inside =>
      have hfragment : ∃ isLast piece, payload = nal.fragment false isLast piece := by
        have hmem := hrest.subset List.mem_cons_self
        rw [List.mem_append, List.mem_map, List.mem_singleton] at hmem
        rcases hmem with ⟨piece, -, rfl⟩ | rfl
        · exact ⟨false, piece, rfl⟩
        · exact ⟨true, last, rfl⟩
      obtain ⟨isLast, piece, rfl⟩ := hfragment
      rw [List.foldlM_cons, take_fragment, Assembly.fragmentAfter, isStart_fuHeader]
      rfl

namespace ReceivedUnit

/-- Data that the packets received complete. -/
def completed (u : ReceivedUnit Extension Addr) : Option (List UInt8) :=
  ((u.received.map Call.payload).foldlM Assembly.take .empty).bind Assembly.complete

theorem payload_ne_nil (u : ReceivedUnit Extension Addr) : ∀ c ∈ u.received, c.payload ≠ [] :=
  fun c hc ↦ u.sent.payload_ne_nil c (u.sublist.subset hc)

theorem timestamp (u : ReceivedUnit Extension Addr) :
    ∀ c ∈ u.received, c.timestamp = u.sent.unit.timestamp :=
  fun c hc ↦ u.sent.timestamp c (u.sublist.subset hc)

theorem kind_ne_audio (u : ReceivedUnit Extension Addr) : ∀ c ∈ u.received, c.kind ≠ .audio :=
  fun c hc ↦ u.sent.kind_ne_audio c (u.sublist.subset hc)

/-- When only packets at the front are lost, the rest gives at the marker what it completes. -/
theorem outputs_suffix (u : ReceivedUnit Extension Addr) {seq : UInt16}
    (hseq : Consecutive seq u.sent.calls) (h : u.received <:+ u.sent.calls) :
    outputs Receiver.accept .idle u.received =
      u.received.map fun c ↦ if c.marker then u.completed else none := by
  obtain ⟨missing, hmissing⟩ := h
  have hmarked := u.sent.marked
  rw [← hmissing, Consecutive, numbered_append] at hseq
  rw [← hmissing] at hmarked
  have hpayload := u.payload_ne_nil
  have htimestamp := u.timestamp
  rw [completed]
  cases hreceived : u.received with
  | nil => rfl
  | cons call rest =>
    rw [hreceived] at hseq hmarked hpayload htimestamp
    apply Receiver.outputs_consecutive (Receiver.assemblyFor_fresh (Receiver.timestamp_idle call.timestamp) call.seq)
    · rw [hseq.2.1]
      exact hseq.2.2
    · intro c hc
      rw [htimestamp c (List.mem_cons_of_mem call hc), htimestamp call List.mem_cons_self]
    · exact hpayload
    · exact hmarked.of_append missing (List.cons_ne_nil call rest)

/-- After another loss nothing is given. -/
theorem outputs_not_suffix (u : ReceivedUnit Extension Addr) {seq : UInt16}
    (hseq : Consecutive seq u.sent.calls) (hlost : u.lost < 65536)
    (h : ¬ u.received <:+ u.sent.calls) :
    outputs Receiver.accept .idle u.received = u.received.map fun _ ↦ none := by
  have hsub := u.sublist
  have hpayload := u.sent.payload_ne_nil
  have htimestamp := u.sent.timestamp
  have hmarked := u.sent.marked
  have hlength : u.sent.calls.length < u.received.length + 65536 := by
    have := hsub.length_le
    rw [lost] at hlost
    omega
  generalize u.sent.calls = calls at *
  generalize u.received = received at *
  cases received with
  | nil => rfl
  | cons call rest =>
    obtain ⟨front, back, rfl, hfront, hback⟩ := List.cons_sublist_iff.mp hsub
    obtain ⟨before, after, rfl⟩ := List.append_of_mem hfront
    rw [List.append_assoc, List.cons_append] at *
    have hsub : rest.Sublist (after ++ back) := hback.trans (List.sublist_append_right after back)
    have hne : rest ≠ after ++ back := by
      rintro rfl
      exact h (List.suffix_append before _)
    have hrest : after ++ back ≠ [] := by
      intro hnil
      rw [hnil] at hsub hne
      exact hne (List.sublist_nil.mp hsub)
    rw [Consecutive, numbered_append] at hseq
    have hmem : ∀ c ∈ after ++ back, c ∈ before ++ call :: (after ++ back) := fun c hc ↦
      List.mem_append_right before (List.mem_cons_of_mem call hc)
    have hcall : call ∈ before ++ call :: (after ++ back) :=
      List.mem_append_right before List.mem_cons_self
    have hmarked := hmarked.of_append before (List.cons_ne_nil call _)
    have hshorter : (after ++ back).length < rest.length + 65536 := by
      simp only [List.length_append, List.length_cons] at hlength ⊢
      omega
    rw [outputs_cons, Receiver.accept_unmarked _ (hmarked.marker_eq_false hrest), List.map_cons]
    obtain ⟨a, hstate⟩ | hstate := Receiver.accept_state .idle (hpayload call hcall)
    · rw [hstate, htimestamp call hcall, Receiver.outputs_lost a hsub
        (by rw [hseq.2.1]; exact hseq.2.2) (fun c hc ↦ htimestamp c (hmem c hc))
        (fun c hc ↦ hpayload c (hmem c hc)) (hmarked.of_append [call] hrest) hne hshorter]
    · rw [hstate, htimestamp call hcall, Receiver.outputs_dropping fun c hc ↦
        htimestamp c (hmem c (hsub.subset hc))]

/-- Carriers that are left whole by a loss at the front complete their NAL units. -/
theorem completed_of_carriers (u : ReceivedUnit Extension Addr) {front back : List Carrier}
    (hcarriers : u.sent.carriers = front ++ back) (hback : back ≠ [])
    (hreceived : u.received = u.sent.calls.drop (front.flatMap Carrier.payloads).length) :
    u.completed = some (annexB ((back.flatMap Carrier.nals).map Nal.bytes)) := by
  have hpayloads : u.received.map Call.payload = back.flatMap Carrier.payloads := by
    rw [hreceived, List.map_drop, u.sent.payloads, hcarriers, List.flatMap_append, List.drop_left]
  rw [completed, hpayloads, SentUnit.complete_carriers _ (flatMap_nals_ne_nil hback)]

/-- Data is given only for whole carriers behind a loss at the front, or behind none. -/
theorem some_mem_outputs (u : ReceivedUnit Extension Addr) {seq : UInt16} {data : List UInt8}
    (hseq : Consecutive seq u.sent.calls) (hlost : u.lost < 65536)
    (h : some data ∈ outputs Receiver.accept .idle u.received) :
    ∃ front back, u.sent.carriers = front ++ back ∧ back ≠ [] ∧
      u.received = u.sent.calls.drop (front.flatMap Carrier.payloads).length ∧
      data = annexB ((back.flatMap Carrier.nals).map Nal.bytes) := by
  by_cases hsuffix : u.received <:+ u.sent.calls
  · rw [u.outputs_suffix hseq hsuffix] at h
    obtain ⟨call, hcall, hdata⟩ := List.mem_map.mp h
    have hcompleted : u.completed = some data := by
      split at hdata
      · exact hdata
      · contradiction
    have hpart := hsuffix.map Call.payload
    rw [u.sent.payloads] at hpart
    rcases suffix_flatMap hpart with
      ⟨front, back, hcarriers, hback⟩ | ⟨front, carrier, back, inside, -, hpayload, hinside⟩
    · have hne : back ≠ [] := by
        rintro rfl
        rw [List.flatMap_nil, List.map_eq_nil_iff] at hback
        rw [hback] at hcall
        contradiction
      have hreceived : u.received =
          u.sent.calls.drop (front.flatMap Carrier.payloads).length := by
        have hlength := congrArg List.length u.sent.payloads
        have hlast := congrArg List.length hback
        rw [hcarriers, List.flatMap_append, List.length_append, List.length_map] at hlength
        rw [List.length_map] at hlast
        rw [List.suffix_iff_eq_drop.mp hsuffix]
        congr 1
        omega
      refine ⟨front, back, hcarriers, hne, hreceived, ?_⟩
      rw [u.completed_of_carriers hcarriers hne hreceived] at hcompleted
      exact (Option.some.inj hcompleted).symm
    · rw [completed, hpayload, List.foldlM_append,
        foldlM_take_inside hinside.1 hinside.2.1 hinside.2.2] at hcompleted
      contradiction
  · rw [u.outputs_not_suffix hseq hlost hsuffix] at h
    obtain ⟨-, -, hnone⟩ := List.mem_map.mp h
    contradiction

/-- A unit that lost its first carriers is given without them. -/
theorem annexB_length_lt (u : ReceivedUnit Extension Addr) {front back : List Carrier}
    (hcarriers : u.sent.carriers = front ++ back) (hfront : front ≠ []) (hback : back ≠ []) :
    (annexB ((back.flatMap Carrier.nals).map Nal.bytes)).length <
      u.sent.unit.annexB.length := by
  have hne : ∀ {carriers : List Carrier}, carriers ≠ [] →
      (carriers.flatMap Carrier.nals).map Nal.bytes ≠ [] :=
    fun hcarriers hnone ↦ flatMap_nals_ne_nil hcarriers (List.map_eq_nil_iff.mp hnone)
  rw [AccessUnit.annexB, ← u.sent.covers, hcarriers, List.flatMap_append, List.map_append,
    annexB_append (hne hfront) (hne hback)]
  simp only [List.length_append, ANNEX_B_START_CODE, List.length_cons]
  omega

end ReceivedUnit

/-! ### Samples -/

/-- What a frame says comes from a packet and the data it completes. -/
theorem of_mem_samples {frame : VideoFrame Extension Addr} {calls : List (Call Extension Addr)}
    {datas : List (Option (List UInt8))}
    (h : (.video frame : MediaSample Extension Addr Audio) ∈
      (List.zipWith H265Depacketizer.samples calls datas).flatten) :
    some frame.data ∈ datas ∧ ∃ call ∈ calls, frame.rtpTimestamp = call.timestamp := by
  obtain ⟨samples, hsamples, hframe⟩ := List.mem_flatten.mp h
  rw [← List.map_uncurry_zip_eq_zipWith] at hsamples
  obtain ⟨⟨call, data⟩, hpair, rfl⟩ := List.mem_map.mp hsamples
  obtain ⟨bytes, hbytes, hvideo⟩ := List.mem_map.mp hframe
  have hdata : data = some bytes := Option.mem_toList.mp hbytes
  cases hvideo
  obtain ⟨hcall, hmem⟩ := List.of_mem_zip hpair
  rw [hdata] at hmem
  exact ⟨hmem, call, hcall, rfl⟩

namespace ReceivedUnit

variable (fromRtpPacket : RtpPacket Extension → MediaKind → UInt32 → Addr →
  MediaSample Extension Addr Audio)

/-- The samples for the packets received of one access unit. -/
def samples (u : ReceivedUnit Extension Addr) : List (List (MediaSample Extension Addr Audio)) :=
  outputs (H265Depacketizer.push fromRtpPacket) .new u.received

/-- Unless it lost a first part, a unit gives only itself. -/
theorem isWhole_of_mem (u : ReceivedUnit Extension Addr) {seq : UInt16}
    (hseq : Consecutive seq u.sent.calls) (hlost : u.lost < 65536) (hfront : ¬ u.LosesFront)
    {frame : VideoFrame Extension Addr} (h : .video frame ∈ (u.samples fromRtpPacket).flatten) :
    u.sent.IsWhole frame := by
  have hrun := H265Depacketizer.outputs_push fromRtpPacket u.kind_ne_audio .idle
  rw [Receiver.depacketizer] at hrun
  rw [samples, hrun] at h
  obtain ⟨hdata, call, hcall, htimestamp⟩ := of_mem_samples h
  obtain ⟨front, back, hcarriers, hback, hreceived, hframe⟩ :=
    u.some_mem_outputs hseq hlost hdata
  have hnone : front = [] := by
    by_contra hne
    exact hfront ⟨front, back, hcarriers, hne, hback, hreceived⟩
  subst hnone
  rw [List.nil_append] at hcarriers
  refine ⟨?_, htimestamp.trans (u.timestamp call hcall)⟩
  rw [hframe, AccessUnit.annexB, ← u.sent.covers, hcarriers]

/-- A unit that lost a first part gives a frame with its timestamp that is not whole. -/
theorem frame_of_losesFront (u : ReceivedUnit Extension Addr) {seq : UInt16}
    (hseq : Consecutive seq u.sent.calls) (hfront : u.LosesFront) :
    ∃ frame, .video frame ∈ (u.samples fromRtpPacket).flatten ∧
      frame.rtpTimestamp = u.sent.unit.timestamp ∧
      frame.data.length < u.sent.unit.annexB.length := by
  obtain ⟨front, back, hcarriers, hne, hback, hreceived⟩ := hfront
  have hsuffix : u.received <:+ u.sent.calls := by
    rw [hreceived]
    exact List.drop_suffix _ _
  have hpayloads : u.received.map Call.payload = back.flatMap Carrier.payloads := by
    rw [hreceived, List.map_drop, u.sent.payloads, hcarriers, List.flatMap_append, List.drop_left]
  have hreceived_ne : u.received ≠ [] := by
    intro hnone
    rw [hnone] at hpayloads
    cases back with
    | nil => exact hback rfl
    | cons carrier back =>
      rw [List.flatMap_cons] at hpayloads
      exact carrier.payloads_ne_nil (List.append_eq_nil_iff.mp hpayloads.symm).1
  obtain ⟨missing, hmissing⟩ := hsuffix
  have hmarked : MarkedLast u.received := by
    apply MarkedLast.of_append missing _ hreceived_ne
    rw [hmissing]
    exact u.sent.marked
  obtain ⟨call, hcall, hmarker⟩ := hmarked.exists_marker
  let data := annexB ((back.flatMap Carrier.nals).map Nal.bytes)
  refine ⟨videoFrame call.timestamp data call.packet call.addr, ?_, u.timestamp call hcall,
    u.annexB_length_lt hcarriers hne hback⟩
  have hrun := H265Depacketizer.outputs_push fromRtpPacket u.kind_ne_audio .idle
  rw [Receiver.depacketizer] at hrun
  rw [samples, hrun, u.outputs_suffix hseq ⟨missing, hmissing⟩,
    u.completed_of_carriers hcarriers hback hreceived, List.zipWith_map_right,
    List.zipWith_self, List.mem_flatten]
  refine ⟨_, List.mem_map_of_mem hcall, ?_⟩
  rw [hmarker]
  exact List.mem_singleton_self _

/-- A depacketizer for access units under timestamps that it has not seen last. -/
def FreshFor (d : H265Depacketizer) (units : List (ReceivedUnit Extension Addr)) : Prop :=
  ∃ r : Receiver, r.depacketizer = d ∧
    (∀ u ∈ units, r.timestamp? ≠ some u.sent.unit.timestamp) ∧
    (units.map fun u ↦ u.sent.unit.timestamp).Nodup

/-- An access unit gives the same as alone and leaves the others as they were. -/
theorem FreshFor.next {d : H265Depacketizer} {u : ReceivedUnit Extension Addr}
    {rest : List (ReceivedUnit Extension Addr)} (h : FreshFor d (u :: rest)) :
    outputs (H265Depacketizer.push fromRtpPacket) d u.received = u.samples fromRtpPacket ∧
      FreshFor (stateAfter (H265Depacketizer.push fromRtpPacket) d u.received) rest := by
  obtain ⟨r, rfl, hfresh, hnodup⟩ := h
  rw [List.map_cons, List.nodup_cons] at hnodup
  have hnew : H265Depacketizer.new = Receiver.idle.depacketizer := rfl
  constructor
  · rw [samples, hnew, H265Depacketizer.outputs_push fromRtpPacket u.kind_ne_audio,
      H265Depacketizer.outputs_push fromRtpPacket u.kind_ne_audio,
      Receiver.outputs_fresh (hfresh u List.mem_cons_self) (Receiver.timestamp_idle _)
        u.payload_ne_nil u.timestamp]
  · refine ⟨_, (H265Depacketizer.stateAfter_push fromRtpPacket u.kind_ne_audio r).symm, ?_,
      hnodup.2⟩
    intro other hother
    by_cases hreceived : u.received = []
    · rw [hreceived]
      exact hfresh other (List.mem_cons_of_mem u hother)
    · rw [Receiver.timestamp_stateAfter hreceived u.payload_ne_nil u.timestamp]
      intro hsame
      apply hnodup.1
      rw [Option.some.inj hsame]
      exact List.mem_map_of_mem hother

/-- Access units under different timestamps give each its own samples. -/
theorem outputs_units {units : List (ReceivedUnit Extension Addr)}
    (h : (units.map fun u ↦ u.sent.unit.timestamp).Nodup) :
    outputs (H265Depacketizer.push fromRtpPacket) .new (units.flatMap received) =
      units.flatMap (samples fromRtpPacket) :=
  outputs_flatMap _ received (samples fromRtpPacket) FreshFor
    (fun _ _ _ h ↦ h.next fromRtpPacket) units .new
    ⟨.idle, rfl, fun u _ ↦ Receiver.timestamp_idle u.sent.unit.timestamp, h⟩

end ReceivedUnit

/-- The packets of every access unit have consecutive sequence numbers. -/
theorem consecutive_of_mem {units : List (ReceivedUnit Extension Addr)} {seq : UInt16}
    (h : Consecutive seq (units.flatMap fun u ↦ u.sent.calls)) {u : ReceivedUnit Extension Addr}
    (hu : u ∈ units) : ∃ seq, Consecutive seq u.sent.calls := by
  obtain ⟨before, after, rfl⟩ := List.append_of_mem hu
  rw [List.flatMap_append, List.flatMap_cons, Consecutive, numbered_append,
    numbered_append] at h
  exact ⟨_, h.2.1⟩

/-- Access units under different timestamps, of which fewer than 65536 packets are lost: every
frame is the whole of some access unit exactly if no unit lost just a first part of its
carriers. -/
theorem frames_whole_iff (fromRtpPacket : RtpPacket Extension → MediaKind → UInt32 → Addr →
      MediaSample Extension Addr Audio)
    (units : List (ReceivedUnit Extension Addr)) (seq : UInt16)
    (hseq : Consecutive seq (units.flatMap fun u ↦ u.sent.calls))
    (htimestamps : (units.map fun u ↦ u.sent.unit.timestamp).Nodup)
    (hlost : (units.map ReceivedUnit.lost).sum < 65536) :
    (∀ frame, .video frame ∈ (outputs (H265Depacketizer.push fromRtpPacket) .new
        (units.flatMap ReceivedUnit.received)).flatten → ∃ u ∈ units, u.sent.IsWhole frame) ↔
      ∀ u ∈ units, ¬ u.LosesFront := by
  rw [ReceivedUnit.outputs_units fromRtpPacket htimestamps]
  constructor
  · intro hwhole u hu hfront
    obtain ⟨useq, huseq⟩ := consecutive_of_mem hseq hu
    obtain ⟨frame, hframe, htimestamp, hshort⟩ :=
      u.frame_of_losesFront fromRtpPacket huseq hfront
    have hmem : .video frame ∈ (units.flatMap (ReceivedUnit.samples fromRtpPacket)).flatten := by
      obtain ⟨samples, hsamples, hvideo⟩ := List.mem_flatten.mp hframe
      exact List.mem_flatten.mpr ⟨samples, List.mem_flatMap.mpr ⟨u, hu, hsamples⟩, hvideo⟩
    obtain ⟨other, hother, hdata, hsame⟩ := hwhole frame hmem
    -- only this unit has the timestamp of the frame
    have heq : other = u :=
      List.inj_on_of_nodup_map htimestamps hother hu (hsame.symm.trans htimestamp)
    subst heq
    rw [hdata] at hshort
    exact Nat.lt_irrefl _ hshort
  · intro hfront frame hframe
    obtain ⟨samples, hsamples, hvideo⟩ := List.mem_flatten.mp hframe
    obtain ⟨u, hu, hmem⟩ := List.mem_flatMap.mp hsamples
    obtain ⟨useq, huseq⟩ := consecutive_of_mem hseq hu
    have hulost : u.lost < 65536 := Nat.lt_of_le_of_lt
      (List.single_le_sum (fun n _ ↦ Nat.zero_le n) u.lost (List.mem_map_of_mem hu)) hlost
    exact ⟨u, hu, u.isWhole_of_mem fromRtpPacket huseq hulost (hfront u hu)
      (List.mem_flatten.mpr ⟨samples, hmem, hvideo⟩)⟩

/-- A fragmented unit that loses a packet in its middle, and one that arrives whole. -/
theorem frames_whole_iff_middle :
    let slice : Nal := ⟨0x26, 1, [0xaa, 0xbb, 0xcc], by decide⟩
    let next : Nal := ⟨0x02, 1, [0xdd], by decide⟩
    let broken : SentUnit Unit Unit := send ⟨100, [slice], by decide⟩
      [.fragments slice [0xaa] [[0xbb]] [0xcc] rfl] rfl () 65534
    let whole : SentUnit Unit Unit := send ⟨200, [next], by decide⟩ [.single next] rfl () 1
    let units : List (ReceivedUnit Unit Unit) :=
      [⟨broken, broken.calls.eraseIdx 1, List.eraseIdx_sublist _ 1⟩,
        ⟨whole, whole.calls, List.Sublist.refl _⟩]
    (∀ frame, .video frame ∈ (outputs (H265Depacketizer.push fun packet _ _ _ ↦
        MediaSample.audio packet) .new (units.flatMap ReceivedUnit.received)).flatten →
      ∃ u ∈ units, u.sent.IsWhole frame) ↔ ∀ u ∈ units, ¬ u.LosesFront := by
  intro slice next broken whole units
  exact frames_whole_iff _ units 65534 ⟨rfl, rfl, rfl, rfl, trivial⟩ (by decide) (by decide)

/-- An access unit of two NAL units that loses its first packet gives the second NAL unit as if
it were the whole. -/
theorem front_loss_emitted :
    let first : Nal := ⟨0x40, 1, [0xaa], by decide⟩
    let second : Nal := ⟨0x44, 1, [0xbb], by decide⟩
    let sent : SentUnit Unit Unit := send ⟨100, [first, second], by decide⟩
      [.single first, .single second] rfl () 1
    let units : List (ReceivedUnit Unit Unit) :=
      [⟨sent, sent.calls.drop 1, List.drop_sublist 1 _⟩]
    Consecutive 1 (units.flatMap fun u ↦ u.sent.calls) ∧
      (units.map fun u ↦ u.sent.unit.timestamp).Nodup ∧
      (units.map ReceivedUnit.lost).sum < 65536 ∧
      ¬ ∀ frame, .video frame ∈ (outputs (H265Depacketizer.push fun packet _ _ _ ↦
          MediaSample.audio packet) .new (units.flatMap ReceivedUnit.received)).flatten →
        ∃ u ∈ units, u.sent.IsWhole frame := by
  intro first second sent units
  refine ⟨⟨rfl, rfl, trivial⟩, by decide, by decide, fun hwhole ↦ ?_⟩
  let packet : RtpPacket Unit := ⟨⟨true, 96, 2, 100, [], none⟩, second.bytes.1⟩
  obtain ⟨u, hu, hdata, -⟩ := hwhole (videoFrame 100 second.bytes.1 packet ()) (by decide +kernel)
  rw [List.mem_singleton.mp hu] at hdata
  exact absurd hdata (by decide +kernel)

end Vidarax.Rtp
