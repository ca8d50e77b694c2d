import Vidarax.Base.CrcPoly
import Vidarax.Base.LittleEndian

/-!
# Pages of an Ogg stream

Library `Base`. A page is a header, a table of segment lengths, and the segments; a packet goes on
until a segment is shorter than 255 bytes. The bytes of a page that holds one packet are read back as
this page.
-/

namespace Vidarax.Base

/-! ### The grammar -/

/-- A page that is read, with its bytes. -/
structure OggPage where
  flags : UInt8
  granule : Nat
  serial : Nat
  sequence : Nat
  checksum : Nat
  lacing : List UInt8
  body : Bytes
  raw : Bytes

/-- The flag of the first page of a stream. -/
def OggPage.isFirst (page : OggPage) : Bool := page.flags &&& 0x02 != 0

/-- The flag of the last page of a stream. -/
def OggPage.isLast (page : OggPage) : Bool := page.flags &&& 0x04 != 0

/-- So many bytes, and the rest. -/
def takeBytes (count : Nat) (bs : Bytes) : Option (Bytes × Bytes) :=
  if count ≤ bs.length then some (bs.take count, bs.drop count) else none

/-- `OggS`. -/
def oggCapture : Bytes := [0x4F, 0x67, 0x67, 0x53]

/-- A page at the front of a stream, and the rest. -/
def parsePage (bs : Bytes) : Option (OggPage × Bytes) := do
  let (start, rest) ← takeBytes 6 bs
  let flags ← start[5]?
  if start.take 5 ≠ oggCapture ++ [0] then none else
  let (granule, rest) ← takeBytes 8 rest
  let (serial, rest) ← takeBytes 4 rest
  let (sequence, rest) ← takeBytes 4 rest
  let (crc, rest) ← takeBytes 4 rest
  let (count, rest) ← takeBytes 1 rest
  let (lacing, rest) ← takeBytes (ofLe count) rest
  let (body, rest) ← takeBytes (lacing.map UInt8.toNat).sum rest
  some (⟨flags, ofLe granule, ofLe serial, ofLe sequence, ofLe crc, lacing, body,
    bs.take (bs.length - rest.length)⟩, rest)

/-- All pages of a stream; each one takes at least a byte. -/
def parsePagesWithin : Nat → Bytes → Option (List OggPage)
  | _, [] => some []
  | 0, _ => none
  | fuel + 1, bs => do
    let (page, rest) ← parsePage bs
    let pages ← parsePagesWithin fuel rest
    some (page :: pages)

/-- All pages of a stream. -/
def parsePages (bs : Bytes) : Option (List OggPage) := parsePagesWithin bs.length bs

/-- A body in segments. -/
def cutSegments : List UInt8 → Bytes → List Bytes
  | [], _ => []
  | n :: lacing, body => body.take n.toNat :: cutSegments lacing (body.drop n.toNat)

/-- The segments of a page. -/
def OggPage.segments (page : OggPage) : List Bytes := cutSegments page.lacing page.body

/-- Packets of segments, after the part of one that is not finished; what is not finished at the
end. -/
def joinSegments (part : Bytes) : List Bytes → List Bytes × Bytes
  | [] => ([], part)
  | segment :: segments =>
    if segment.length < 255 then
      let (packets, last) := joinSegments [] segments
      ((part ++ segment) :: packets, last)
    else joinSegments (part ++ segment) segments

/-- Bytes with the checksum field zeroed. -/
def withoutChecksum (raw : Bytes) : Bytes := raw.take 22 ++ [0, 0, 0, 0] ++ raw.drop 26

/-! ### Pages of one packet -/

/-- What a page of one packet says. -/
structure PacketPage where
  packet : Bytes
  granule : Nat
  serial : Nat
  sequence : Nat
  flags : UInt8

namespace PacketPage

/-- Lengths of the segments of a packet. -/
def lacing (packet : Bytes) : List UInt8 :=
  List.replicate (packet.length / 255) 255 ++ [UInt8.ofNat (packet.length % 255)]

/-- What comes before the checksum. -/
def front (page : PacketPage) : Bytes :=
  oggCapture ++ [0, page.flags] ++ leBytes 8 page.granule ++ leBytes 4 page.serial ++
    leBytes 4 page.sequence

/-- What comes after the checksum. -/
def back (page : PacketPage) : Bytes :=
  UInt8.ofNat (page.packet.length / 255 + 1) :: (lacing page.packet ++ page.packet)

/-- Bytes of the page with a checksum. -/
def bytes (crc : Bytes → Nat) (page : PacketPage) : Bytes :=
  page.front ++ leBytes 4 (crc (page.front ++ [0, 0, 0, 0] ++ page.back)) ++ page.back

/-- The page that is read. -/
def parsed (crc : Bytes → Nat) (page : PacketPage) : OggPage where
  flags := page.flags
  granule := page.granule
  serial := page.serial
  sequence := page.sequence
  checksum := crc (page.front ++ [0, 0, 0, 0] ++ page.back)
  lacing := lacing page.packet
  body := page.packet
  raw := page.bytes crc

/-- Numbers that fit into their fields. -/
structure Fits (page : PacketPage) : Prop where
  packet : page.packet.length ≤ 65024
  granule : page.granule < 256 ^ 8
  serial : page.serial < 256 ^ 4
  sequence : page.sequence < 256 ^ 4

end PacketPage

/-! ### Reading pages back -/

theorem takeBytes_append (xs ys : Bytes) {count : Nat} (h : xs.length = count) :
    takeBytes count (xs ++ ys) = some (xs, ys) := by
  rw [takeBytes, if_pos (by rw [List.length_append]; omega), List.take_left' h, List.drop_left' h]

namespace PacketPage

variable {crc : Bytes → Nat} {page : PacketPage}

theorem sum_lacing (packet : Bytes) : ((lacing packet).map UInt8.toNat).sum = packet.length := by
  have hlast : (UInt8.ofNat (packet.length % 255)).toNat = packet.length % 255 := by
    rw [UInt8.toNat_ofNat']
    omega
  rw [lacing, List.map_append, List.map_replicate, List.sum_append_nat, List.sum_replicate_nat,
    List.map_singleton, List.sum_singleton, hlast]
  change packet.length / 255 * 255 + packet.length % 255 = packet.length
  omega

theorem length_lacing (packet : Bytes) : (lacing packet).length = packet.length / 255 + 1 := by
  rw [lacing, List.length_append, List.length_replicate, List.length_singleton]

theorem length_front (page : PacketPage) : page.front.length = 22 := by
  rw [front]
  simp [oggCapture]

/-- A page at the front of a stream is read. -/
theorem parsePage_bytes (h : page.Fits) (hcrc : ∀ bs, crc bs < 256 ^ 4) (rest : Bytes) :
    parsePage (page.bytes crc ++ rest) = some (page.parsed crc, rest) := by
  have hpacket := h.packet
  have hcount : ofLe [UInt8.ofNat (page.packet.length / 255 + 1)] = page.packet.length / 255 + 1 := by
    rw [ofLe, ofLe, UInt8.toNat_ofNat']
    omega
  have hstart : takeBytes 6 (page.bytes crc ++ rest) = some (oggCapture ++ [0, page.flags],
      leBytes 8 page.granule ++ (leBytes 4 page.serial ++ (leBytes 4 page.sequence ++
        (leBytes 4 (crc (page.front ++ [0, 0, 0, 0] ++ page.back)) ++
          ([UInt8.ofNat (page.packet.length / 255 + 1)] ++ (lacing page.packet ++
            (page.packet ++ rest))))))) := by
    have hbytes := takeBytes_append (oggCapture ++ [0, page.flags]) (leBytes 8 page.granule ++
      (leBytes 4 page.serial ++ (leBytes 4 page.sequence ++ (leBytes 4 (crc (page.front ++
        [0, 0, 0, 0] ++ page.back)) ++ ([UInt8.ofNat (page.packet.length / 255 + 1)] ++
          (lacing page.packet ++ (page.packet ++ rest))))))) rfl
    rw [← hbytes, bytes, back, front]
    simp only [List.append_assoc, List.cons_append, List.nil_append]
    rfl
  have hflags : (oggCapture ++ [0, page.flags])[5]? = some page.flags := rfl
  have hcapture : (oggCapture ++ [0, page.flags]).take 5 = oggCapture ++ [0] := rfl
  have hraw : (page.bytes crc ++ rest).take ((page.bytes crc ++ rest).length - rest.length) =
      page.bytes crc := by
    rw [List.length_append, Nat.add_sub_cancel, List.take_left']
    rfl
  unfold parsePage
  rw [hstart]
  simp only [Option.bind_eq_bind, Option.bind_some, hflags, hcapture, ne_eq, not_true_eq_false,
    if_false]
  rw [takeBytes_append _ _ (length_leBytes 8 _), Option.bind_some,
    takeBytes_append _ _ (length_leBytes 4 _), Option.bind_some,
    takeBytes_append _ _ (length_leBytes 4 _), Option.bind_some,
    takeBytes_append _ _ (length_leBytes 4 _), Option.bind_some,
    takeBytes_append _ _ (List.length_singleton), Option.bind_some, hcount,
    takeBytes_append _ _ (length_lacing _), Option.bind_some, sum_lacing, takeBytes_append _ _ rfl,
    Option.bind_some, ofLe_leBytes_of_lt h.granule, ofLe_leBytes_of_lt h.serial,
    ofLe_leBytes_of_lt h.sequence, ofLe_leBytes_of_lt (hcrc _), hraw]
  rfl

/-- The packet of a page is the only one in it, and complete. -/
theorem joinSegments_parsed (page : PacketPage) :
    joinSegments [] (page.parsed crc).segments = ([page.packet], []) := by
  have hjoin (count : Nat) (last part body : Bytes) (hbody : body.length = count * 255 + last.length)
      (hlast : last.length < 255) : joinSegments part (cutSegments
        (List.replicate count 255 ++ [UInt8.ofNat last.length]) body) = ([part ++ body], []) := by
    induction count generalizing part body with
    | zero =>
      have hn : (UInt8.ofNat last.length).toNat = body.length := by
        rw [UInt8.toNat_ofNat']
        omega
      rw [List.replicate_zero, List.nil_append, cutSegments, cutSegments, hn, List.take_length,
        joinSegments, if_pos (by omega), joinSegments]
    | succ count ih =>
      have hfull : (body.take 255).length = 255 := by
        rw [List.length_take]
        omega
      have hstep := ih (part ++ body.take 255) (body.drop 255) (by rw [List.length_drop]; omega)
      rw [List.replicate_succ, List.cons_append, cutSegments, joinSegments, if_neg]
      · refine hstep.trans ?_
        rw [List.append_assoc, List.take_append_drop]
      · exact Nat.not_lt.mpr hfull.ge
  have hlength := hjoin (page.packet.length / 255)
    (List.replicate (page.packet.length % 255) 0) [] page.packet (by rw [List.length_replicate]; omega)
    (by rw [List.length_replicate]; omega)
  rwa [List.length_replicate, List.nil_append] at hlength

/-- The bytes of a page with the checksum field zeroed. -/
theorem withoutChecksum_bytes (page : PacketPage) :
    withoutChecksum (page.bytes crc) = page.front ++ [0, 0, 0, 0] ++ page.back := by
  have hfront := length_front page
  rw [withoutChecksum, bytes, List.drop_left' (by rw [List.length_append, hfront, length_leBytes]),
    List.append_assoc page.front, List.take_left' hfront]

theorem bytes_ne_nil (page : PacketPage) : page.bytes crc ≠ [] := by
  intro h
  have hlength := congrArg List.length h
  rw [bytes, List.length_append, List.length_append, length_front] at hlength
  rw [List.length_nil] at hlength
  omega

/-- The pages of a stream are read. -/
theorem parsePages_flatMap (hcrc : ∀ bs, crc bs < 256 ^ 4) (pages : List PacketPage)
    (h : ∀ page ∈ pages, page.Fits) :
    parsePages (pages.flatMap (bytes crc)) = some (pages.map (parsed crc)) := by
  have hwithin (fuel : Nat) (hfuel : pages.length ≤ fuel) :
      parsePagesWithin fuel (pages.flatMap (bytes crc)) = some (pages.map (parsed crc)) := by
    induction pages generalizing fuel with
    | nil => cases fuel <;> rfl
    | cons page pages ih =>
      cases fuel with
      | zero => exact absurd hfuel (Nat.not_succ_le_zero _)
      | succ fuel =>
        have hparse := parsePage_bytes (h page List.mem_cons_self) hcrc (pages.flatMap (bytes crc))
        have hrest := ih (fun p hp ↦ h p (List.mem_cons_of_mem _ hp)) fuel (Nat.le_of_succ_le_succ hfuel)
        rw [List.flatMap_cons]
        cases hbytes : page.bytes crc ++ pages.flatMap (bytes crc) with
        | nil => exact absurd (List.append_eq_nil_iff.mp hbytes).1 (bytes_ne_nil page)
        | cons b bs =>
          rw [hbytes] at hparse
          rw [parsePagesWithin, hparse]
          · simp only [Option.bind_eq_bind, Option.bind_some, hrest, List.map_cons]
          · nofun
  refine hwithin _ ?_
  clear hwithin h
  induction pages with
  | nil => exact Nat.le_refl 0
  | cons page pages ih =>
    have hpos : 0 < (page.bytes crc).length := List.length_pos_of_ne_nil (bytes_ne_nil page)
    rw [List.flatMap_cons, List.length_append, List.length_cons]
    omega

end PacketPage

/-- Segments in two parts. -/
theorem joinSegments_append (part : Bytes) (first last : List Bytes) :
    joinSegments part (first ++ last) =
      ((joinSegments part first).1 ++ (joinSegments (joinSegments part first).2 last).1,
        (joinSegments (joinSegments part first).2 last).2) := by
  induction first generalizing part with
  | nil => rfl
  | cons segment first ih =>
    rw [List.cons_append, joinSegments, joinSegments]
    split
    · rw [ih]
      rfl
    · exact ih _

/-- The packets of a stream of pages with one packet each. -/
theorem joinSegments_parsed_pages (crc : Bytes → Nat) (pages : List PacketPage) :
    joinSegments [] ((pages.map (PacketPage.parsed crc)).flatMap OggPage.segments) =
      (pages.map PacketPage.packet, []) := by
  induction pages with
  | nil => rfl
  | cons page pages ih =>
    rw [List.map_cons, List.flatMap_cons, joinSegments_append, page.joinSegments_parsed, ih]
    rfl

end Vidarax.Base
