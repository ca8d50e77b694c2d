import Mathlib.Data.List.Chain
import Vidarax.Base.Sequence
import Vidarax.Rtp.Receiver

/-!
# Packetization of access units

How a sender turns H.265 access units into packets: NAL units alone, several in an
aggregation packet, or one in fragmentation units, after RFC 7798 without DONL fields. This
is no code of the repository but what its depacketizer has to undo.
-/

namespace Vidarax.Rtp

open Vidarax.Base

/-- A NAL unit as coded: its type is none of the packet structures. -/
structure Nal where
  header0 : UInt8
  header1 : UInt8
  body : List UInt8
  plain : nalType header0 ≤ 47

/-- Bytes of a NAL unit. -/
def Nal.bytes (nal : Nal) : NalBytes :=
  ⟨nal.header0 :: nal.header1 :: nal.body, Nat.le_add_left 2 nal.body.length⟩

/-- An access unit and its timestamp. -/
structure AccessUnit where
  timestamp : UInt32
  nals : List Nal
  nonempty : nals ≠ []

/-- Annex B form of an access unit. -/
def AccessUnit.annexB (unit : AccessUnit) : List UInt8 := Rtp.annexB (unit.nals.map Nal.bytes)

/-! ### Payloads -/

/-- Length field of an aggregated NAL unit; big-endian. -/
def lengthField (length : Nat) : List UInt8 := [UInt8.ofNat (length / 256), UInt8.ofNat length]

/-- A NAL unit in an aggregation packet. -/
def Nal.aggregationUnit (nal : Nal) : List UInt8 := lengthField nal.bytes.1.length ++ nal.bytes.1

/-- First byte of the payload header of the fragments of a NAL unit. -/
def fragmentHeader0 (header0 : UInt8) : UInt8 :=
  let type : UInt8 := H265_NAL_TYPE_FU <<< (1 : UInt8)
  (header0 &&& 0x81) ||| type

/-- Header of a fragmentation unit. -/
def fuHeader (header0 : UInt8) (first last : Bool) : UInt8 :=
  (if first then 0x80 else 0) ||| (if last then 0x40 else 0) ||| nalType header0

/-- A fragmentation unit. -/
def Nal.fragment (nal : Nal) (first last : Bool) (piece : List UInt8) : List UInt8 :=
  fragmentHeader0 nal.header0 :: nal.header1 :: fuHeader nal.header0 first last :: piece

/-- What carries NAL units: a packet with one, a packet with several, or the packets with the
two or more pieces of one. -/
inductive Carrier where
  | single (nal : Nal)
  | aggregation (header0 header1 : UInt8) (nals : List Nal)
      (type : nalType header0 = H265_NAL_TYPE_AP) (nonempty : nals ≠ [])
      (short : ∀ nal ∈ nals, nal.bytes.1.length < 65536)
  | fragments (nal : Nal) (first : List UInt8) (middle : List (List UInt8))
      (last : List UInt8) (whole : first ++ middle.flatten ++ last = nal.body)

namespace Carrier

/-- NAL units of a carrier. -/
def nals : Carrier → List Nal
  | single nal => [nal]
  | aggregation _ _ nals .. => nals
  | fragments nal .. => [nal]

/-- Payloads of a carrier. -/
def payloads : Carrier → List (List UInt8)
  | single nal => [nal.bytes.1]
  | aggregation header0 header1 nals .. =>
    [header0 :: header1 :: nals.flatMap Nal.aggregationUnit]
  | fragments nal first middle last _ =>
    nal.fragment true false first ::
      (middle.map (nal.fragment false false) ++ [nal.fragment false true last])

end Carrier

/-- The NAL units of a carrier are one or more. -/
theorem Carrier.nals_ne_nil (carrier : Carrier) : carrier.nals ≠ [] := by
  cases carrier with
  | single nal => exact List.cons_ne_nil nal []
  | aggregation _ _ _ _ hne => exact hne
  | fragments nal => exact List.cons_ne_nil nal []

/-- The NAL units of one or more carriers are one or more. -/
theorem flatMap_nals_ne_nil {carriers : List Carrier} (h : carriers ≠ []) :
    carriers.flatMap Carrier.nals ≠ [] := by
  cases carriers with
  | nil => contradiction
  | cons carrier carriers =>
    intro hnone
    rw [List.flatMap_cons, List.append_eq_nil_iff] at hnone
    exact carrier.nals_ne_nil hnone.1

/-! ### Packets -/

variable {Extension Addr Audio : Type}

/-- The marker is on the last of some packets and only there. -/
def MarkedLast : List (Call Extension Addr) → Prop
  | [] => False
  | [call] => call.marker = true
  | call :: rest => call.marker = false ∧ MarkedLast rest

/-- The packets from some place on have the marker on their last one, too. -/
theorem MarkedLast.of_append (front : List (Call Extension Addr))
    {calls : List (Call Extension Addr)} (h : MarkedLast (front ++ calls)) (hne : calls ≠ []) :
    MarkedLast calls := by
  induction front with
  | nil => exact h
  | cons call front ih =>
    apply ih
    cases hrest : front ++ calls with
    | nil => exact absurd (List.append_eq_nil_iff.mp hrest).2 hne
    | cons next rest =>
      rw [List.cons_append, hrest] at h
      exact h.2

/-- A packet that is not the last has no marker. -/
theorem MarkedLast.marker_eq_false {call : Call Extension Addr} {rest : List (Call Extension Addr)}
    (h : MarkedLast (call :: rest)) (hne : rest ≠ []) : call.marker = false := by
  cases rest with
  | nil => contradiction
  | cons next rest => exact h.1

/-- Some packet has the marker. -/
theorem MarkedLast.exists_marker {calls : List (Call Extension Addr)} (h : MarkedLast calls) :
    ∃ call ∈ calls, call.marker = true := by
  induction calls with
  | nil => exact absurd h id
  | cons call rest ih =>
    cases rest with
    | nil => exact ⟨call, List.mem_cons_self, h⟩
    | cons next rest =>
      obtain ⟨found, hfound, hmarker⟩ := ih h.2
      exact ⟨found, List.mem_cons_of_mem call hfound, hmarker⟩

/-- An access unit in packets: its carriers, and the calls of `push` that their packets make
when all of them arrive. -/
structure SentUnit (Extension Addr : Type) where
  unit : AccessUnit
  carriers : List Carrier
  covers : carriers.flatMap Carrier.nals = unit.nals
  calls : List (Call Extension Addr)
  payloads : calls.map Call.payload = carriers.flatMap Carrier.payloads
  timestamp : ∀ call ∈ calls, call.timestamp = unit.timestamp
  marked : MarkedLast calls
  video : ∀ call ∈ calls, call.kind = .video

/-- Packets with consecutive sequence numbers. -/
def Consecutive (seq : UInt16) (calls : List (Call Extension Addr)) : Prop :=
  Numbered seqSucc Call.seq seq calls

/-- Samples of an access unit received whole: one, at the packet with the marker. -/
def SentUnit.samples (sent : SentUnit Extension Addr) :
    List (List (MediaSample Extension Addr Audio)) :=
  sent.calls.map fun call ↦
    if call.marker then
      [.video (videoFrame sent.unit.timestamp sent.unit.annexB call.packet call.addr)]
    else []

/-! ### Header bits -/

/-- A property of all bytes holds if it holds of the first 256 numbers as bytes. -/
private theorem forall_byte {P : UInt8 → Prop} (h : ∀ n < 256, P (UInt8.ofNat n)) (b : UInt8) :
    P b := by
  rw [← UInt8.ofNat_toNat (x := b)]
  exact h b.toNat b.toNat_lt

theorem nalType_fragmentHeader0 (header0 : UInt8) :
    nalType (fragmentHeader0 header0) = H265_NAL_TYPE_FU :=
  forall_byte (P := fun b ↦ nalType (fragmentHeader0 b) = H265_NAL_TYPE_FU) (by decide +kernel)
    header0

/-- The bits of the payload header and of the fragment header together are the first byte of
the NAL unit. -/
theorem reconstructedHeader0_fragment (header0 : UInt8) (first last : Bool) :
    reconstructedHeader0 (fragmentHeader0 header0) (fuHeader header0 first last) = header0 := by
  revert first last
  exact forall_byte (P := fun b ↦ ∀ first last,
    reconstructedHeader0 (fragmentHeader0 b) (fuHeader b first last) = b) (by decide +kernel)
    header0

theorem isStart_fuHeader (header0 : UInt8) (first last : Bool) :
    isStart (fuHeader header0 first last) = first := by
  revert first last
  exact forall_byte (P := fun b ↦ ∀ first last, isStart (fuHeader b first last) = first)
    (by decide +kernel) header0

theorem isEnd_fuHeader (header0 : UInt8) (first last : Bool) :
    isEnd (fuHeader header0 first last) = last := by
  revert first last
  exact forall_byte (P := fun b ↦ ∀ first last, isEnd (fuHeader b first last) = last)
    (by decide +kernel) header0

/-! ### A sender -/

/-- Calls for the packets of some payloads under one timestamp. -/
def sendPayloads (addr : Addr) (timestamp : UInt32) :
    UInt16 → List (List UInt8) → List (Call Extension Addr)
  | _, [] => []
  | seq, payload :: rest =>
    ⟨⟨⟨rest.isEmpty, 96, seq, timestamp, [], none⟩, payload⟩, 90000, addr, .video⟩ ::
      sendPayloads addr timestamp (seqSucc seq) rest

section SendPayloads

variable (addr : Addr) (timestamp : UInt32) (seq : UInt16) (payloads : List (List UInt8))

@[simp] theorem map_payload_sendPayloads :
    (sendPayloads addr timestamp seq payloads : List (Call Extension Addr)).map Call.payload =
      payloads := by
  induction payloads generalizing seq with
  | nil => rfl
  | cons payload rest ih => rw [sendPayloads, List.map_cons, ih]; rfl

theorem sendPayloads_spec :
    ∀ call ∈ (sendPayloads addr timestamp seq payloads : List (Call Extension Addr)),
      call.timestamp = timestamp ∧ call.kind = .video := by
  induction payloads generalizing seq with
  | nil => exact fun _ h ↦ by cases h
  | cons payload rest ih =>
    intro call hcall
    rcases List.mem_cons.mp hcall with rfl | hrest
    · exact ⟨rfl, rfl⟩
    · exact ih (seqSucc seq) call hrest

theorem markedLast_sendPayloads (h : payloads ≠ []) :
    MarkedLast (sendPayloads addr timestamp seq payloads : List (Call Extension Addr)) := by
  induction payloads generalizing seq with
  | nil => contradiction
  | cons payload rest ih =>
    cases rest with
    | nil => rfl
    | cons next rest => exact ⟨rfl, ih (seqSucc seq) (List.cons_ne_nil next rest)⟩

end SendPayloads

/-- The payloads of a carrier are one or more. -/
theorem Carrier.payloads_ne_nil (carrier : Carrier) : carrier.payloads ≠ [] := by
  cases carrier <;> exact List.cons_ne_nil _ _

/-- An access unit sent in some carriers. -/
def send (unit : AccessUnit) (carriers : List Carrier)
    (covers : carriers.flatMap Carrier.nals = unit.nals) (addr : Addr) (seq : UInt16) :
    SentUnit Extension Addr where
  unit := unit
  carriers := carriers
  covers := covers
  calls := sendPayloads addr unit.timestamp seq (carriers.flatMap Carrier.payloads)
  payloads := map_payload_sendPayloads addr unit.timestamp seq _
  timestamp := fun call hcall ↦ (sendPayloads_spec addr unit.timestamp seq _ call hcall).1
  marked := by
    apply markedLast_sendPayloads
    intro h
    cases carriers with
    | nil => exact unit.nonempty covers.symm
    | cons carrier rest =>
      rw [List.flatMap_cons, List.append_eq_nil_iff] at h
      exact carrier.payloads_ne_nil h.1
  video := fun call hcall ↦ (sendPayloads_spec addr unit.timestamp seq _ call hcall).2

end Vidarax.Rtp
