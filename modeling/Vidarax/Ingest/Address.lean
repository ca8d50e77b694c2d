import Mathlib.Data.List.Basic
import Mathlib.Tactic.Common
import Mathlib.Tactic.IntervalCases

/-!
# Network addresses

Package `vidarax-core`, `crates/vidarax-core/src/ingest/validate.rs:279–319`, and the predicates of
`std::net` that it uses. An address is a number; its octets and segments are the digits of it. What
an address outside of the public network is, is said by blocks of addresses.
-/

namespace Vidarax.Ingest

/-- `std::net::Ipv4Addr`. -/
structure Ipv4Addr where
  bits : BitVec 32
  deriving DecidableEq

/-- `std::net::Ipv6Addr`. -/
structure Ipv6Addr where
  bits : BitVec 128
  deriving DecidableEq

/-- `std::net::IpAddr`. -/
inductive IpAddr where
  | v4 (ip : Ipv4Addr)
  | v6 (ip : Ipv6Addr)
  deriving DecidableEq

/-! ### The filter -/

namespace Ipv4Addr

variable (ip : Ipv4Addr)

/-- The address `a.b.c.d`. -/
def ofOctets (a b c d : UInt8) : Ipv4Addr :=
  ⟨BitVec.ofNat 32 (((a.toNat * 256 + b.toNat) * 256 + c.toNat) * 256 + d.toNat)⟩

/-- An octet, counted from the front. -/
def octet (i : Nat) : Nat := ip.bits.toNat / 256 ^ (3 - i) % 256

/-- `is_private`. -/
def isPrivate : Bool :=
  ip.octet 0 = 10 ∨ (ip.octet 0 = 172 ∧ 16 ≤ ip.octet 1 ∧ ip.octet 1 ≤ 31) ∨
    (ip.octet 0 = 192 ∧ ip.octet 1 = 168)

/-- `is_loopback`. -/
def isLoopback : Bool := ip.octet 0 = 127

/-- `is_link_local`. -/
def isLinkLocal : Bool := ip.octet 0 = 169 ∧ ip.octet 1 = 254

/-- `is_unspecified`. -/
def isUnspecified : Bool := ip.bits = 0

/-- `is_broadcast`. -/
def isBroadcast : Bool := ip.bits = BitVec.ofNat 32 0xFFFFFFFF

/-- `is_documentation`. -/
def isDocumentation : Bool :=
  (ip.octet 0 = 192 ∧ ip.octet 1 = 0 ∧ ip.octet 2 = 2) ∨
    (ip.octet 0 = 198 ∧ ip.octet 1 = 51 ∧ ip.octet 2 = 100) ∨
    (ip.octet 0 = 203 ∧ ip.octet 1 = 0 ∧ ip.octet 2 = 113)

/-- `is_multicast`. -/
def isMulticast : Bool := 224 ≤ ip.octet 0 ∧ ip.octet 0 ≤ 239

/-- Branch `IpAddr::V4` of `blocked_ip`; `validate.rs:281`. -/
def blocked : Bool :=
  ip.isPrivate || ip.isLoopback || ip.isLinkLocal || ip.isUnspecified || ip.isBroadcast ||
    ip.isDocumentation || ip.isMulticast ||
    ip.octet 0 = 0 ||
    (ip.octet 0 = 100 && (64 ≤ ip.octet 1 && ip.octet 1 ≤ 127)) ||
    (ip.octet 0 = 198 && (ip.octet 1 = 18 || ip.octet 1 = 19)) ||
    (ip.octet 0 = 169 && ip.octet 1 = 254) ||
    (ip.octet 0 = 192 && ip.octet 1 = 0 && ip.octet 2 = 0) ||
    (ip.octet 0 = 192 && ip.octet 1 = 88 && ip.octet 2 = 99) ||
    240 ≤ ip.octet 0

end Ipv4Addr

namespace Ipv6Addr

variable (ip : Ipv6Addr)

/-- The address of eight segments. -/
def ofSegments (a b c d e f g h : UInt16) : Ipv6Addr :=
  ⟨BitVec.ofNat 128 ([a, b, c, d, e, f, g, h].foldl (fun n s ↦ n * 65536 + s.toNat) 0)⟩

/-- An octet, counted from the front. -/
def octet (i : Nat) : Nat := ip.bits.toNat / 256 ^ (15 - i) % 256

/-- The address that is made of the last four octets. -/
def low : Ipv4Addr := ⟨ip.bits.setWidth 32⟩

/-- `to_ipv4_mapped`. -/
def toIpv4Mapped : Option Ipv4Addr :=
  if ip.bits.toNat / 2 ^ 32 = 0xFFFF then some ip.low else none

/-- `is_loopback`. -/
def isLoopback : Bool := ip.bits.toNat = 1

/-- `is_unspecified`. -/
def isUnspecified : Bool := ip.bits.toNat = 0

/-- `is_unique_local`: the first seven bits are those of `fc00`. -/
def isUniqueLocal : Bool := ip.bits.toNat / 2 ^ 121 = 0xFC / 2

/-- `is_unicast_link_local`: the first ten bits are those of `fe80`. -/
def isUnicastLinkLocal : Bool := ip.bits.toNat / 2 ^ 118 = 0xFE80 / 2 ^ 6

/-- `is_multicast`. -/
def isMulticast : Bool := ip.octet 0 = 0xFF

/-- Branch `IpAddr::V6` of `blocked_ip`; `validate.rs:300`. -/
def blocked : Bool :=
  match ip.toIpv4Mapped with
  | some v4 => v4.blocked
  | none =>
    ip.isLoopback || ip.isUnspecified || ip.isUniqueLocal || ip.isUnicastLinkLocal ||
      ip.isMulticast ||
      (ip.octet 0 = 0x20 && ip.octet 1 = 0x01 && ip.octet 2 = 0x0D && ip.octet 3 = 0xB8)

end Ipv6Addr

/-- `blocked_ip`; `validate.rs:279`. -/
def blockedIp : IpAddr → Bool
  | .v4 ip => ip.blocked
  | .v6 ip => ip.blocked

/-! ### The public network -/

/-- Whether the first `length` bits of two numbers of `width` bits are equal. -/
def SameNetwork (width length a b : Nat) : Prop := a / 2 ^ (width - length) = b / 2 ^ (width - length)

instance (width length a b : Nat) : Decidable (SameNetwork width length a b) :=
  inferInstanceAs (Decidable (_ = _))

namespace Ipv4Addr

/-- Blocks that are not part of the public network: this network, private, shared, loopback, link
local, protocol assignments, documentation, relays, benchmarks, multicast, reserved. -/
def specialBlocks : List (Ipv4Addr × Nat) :=
  [(ofOctets 0 0 0 0, 8), (ofOctets 10 0 0 0, 8), (ofOctets 100 64 0 0, 10),
    (ofOctets 127 0 0 0, 8), (ofOctets 169 254 0 0, 16), (ofOctets 172 16 0 0, 12),
    (ofOctets 192 0 0 0, 24), (ofOctets 192 0 2 0, 24), (ofOctets 192 88 99 0, 24),
    (ofOctets 192 168 0 0, 16), (ofOctets 198 18 0 0, 15), (ofOctets 198 51 100 0, 24),
    (ofOctets 203 0 113 0, 24), (ofOctets 224 0 0 0, 4), (ofOctets 240 0 0 0, 4)]

/-- The address is not part of the public network. -/
def IsSpecial (ip : Ipv4Addr) : Prop :=
  ∃ block ∈ specialBlocks, SameNetwork 32 block.2 ip.bits.toNat block.1.bits.toNat

instance (ip : Ipv4Addr) : Decidable ip.IsSpecial := inferInstanceAs (Decidable (∃ _ ∈ _, _))

end Ipv4Addr

namespace Ipv6Addr

/-- The IPv4 address that the address carries: mapped `::ffff:0:0/96`, compatible `::/96`,
translated `64:ff9b::/96`, relayed `2002::/16`. -/
def embedded (ip : Ipv6Addr) : Option Ipv4Addr :=
  if ip.bits.toNat / 2 ^ 32 ∈ [0xFFFF, 0, 0x64FF9B * 2 ^ 64] then some ip.low
  else if ip.bits.toNat / 2 ^ 112 = 0x2002 then some ⟨BitVec.ofNat 32 (ip.bits.toNat / 2 ^ 80)⟩
  else none

/-- Blocks of addresses of IPv6 itself that the filter knows: unique local, link local, multicast,
documentation. -/
def knownBlocks : List (Ipv6Addr × Nat) :=
  [(ofSegments 0xFC00 0 0 0 0 0 0 0, 7), (ofSegments 0xFE80 0 0 0 0 0 0 0, 10),
    (ofSegments 0xFF00 0 0 0 0 0 0 0, 8), (ofSegments 0x2001 0xDB8 0 0 0 0 0 0, 32)]

/-- Blocks of addresses of IPv6 itself that the filter does not know: local translation, discard,
protocol assignments, documentation, segment identifiers, site local. -/
def unknownBlocks : List (Ipv6Addr × Nat) :=
  [(ofSegments 0x64 0xFF9B 1 0 0 0 0 0, 48), (ofSegments 0x100 0 0 0 0 0 0 0, 64),
    (ofSegments 0x2001 0 0 0 0 0 0 0, 23), (ofSegments 0x3FFF 0 0 0 0 0 0 0, 20),
    (ofSegments 0x5F00 0 0 0 0 0 0 0, 16), (ofSegments 0xFEC0 0 0 0 0 0 0 0, 10)]

/-- The address lies in one of the blocks. -/
def InBlocks (ip : Ipv6Addr) (blocks : List (Ipv6Addr × Nat)) : Prop :=
  ∃ block ∈ blocks, SameNetwork 128 block.2 ip.bits.toNat block.1.bits.toNat

instance (ip : Ipv6Addr) (blocks : List (Ipv6Addr × Nat)) : Decidable (ip.InBlocks blocks) :=
  inferInstanceAs (Decidable (∃ _ ∈ _, _))

/-- The address is not part of the public network. One that carries an IPv4 address counts as that;
`::` and `::1` carry addresses of this network. -/
def IsSpecial (ip : Ipv6Addr) : Prop :=
  match ip.embedded with
  | some v4 => v4.IsSpecial
  | none => ip.InBlocks (knownBlocks ++ unknownBlocks)

/-- The address is not part of the public network for a reason that the filter does not know. -/
def IsMissed (ip : Ipv6Addr) : Prop :=
  match ip.embedded with
  | some v4 => ip.toIpv4Mapped = none ∧ 2 ≤ ip.bits.toNat ∧ v4.IsSpecial
  | none => ip.InBlocks unknownBlocks

end Ipv6Addr

namespace IpAddr

/-- The address is private, loopback, link local, multicast, unspecified or reserved. -/
def IsSpecial : IpAddr → Prop
  | .v4 ip => ip.IsSpecial
  | .v6 ip => ip.IsSpecial

/-- The address is special for a reason that the filter does not know. -/
def IsMissed : IpAddr → Prop
  | .v4 _ => False
  | .v6 ip => ip.IsMissed

end IpAddr

/-! ### The filter against the blocks -/

namespace Ipv4Addr

variable (ip : Ipv4Addr) (a b c d : UInt8)

theorem toNat_ofOctets : (ofOctets a b c d).bits.toNat =
    ((a.toNat * 256 + b.toNat) * 256 + c.toNat) * 256 + d.toNat := by
  have ha := a.toNat_lt
  have hb := b.toNat_lt
  have hc := c.toNat_lt
  have hd := d.toNat_lt
  rw [ofOctets, BitVec.toNat_ofNat]
  apply Nat.mod_eq_of_lt
  omega

/-- A block that is cut in the first octet. -/
theorem sameNetwork_first {length : Nat} (h : length ≤ 8) :
    SameNetwork 32 length ip.bits.toNat (ofOctets a b c d).bits.toNat ↔
      ip.octet 0 / 2 ^ (8 - length) = a.toNat / 2 ^ (8 - length) := by
  have hlt := ip.bits.isLt
  have hb := b.toNat_lt
  have hc := c.toNat_lt
  have hd := d.toNat_lt
  rw [SameNetwork, toNat_ofOctets, octet]
  generalize ip.bits.toNat = n at *
  interval_cases length <;> simp <;> omega

/-- A block that is cut in the second octet. -/
theorem sameNetwork_second {length : Nat} (hlow : 8 < length) (hhigh : length ≤ 16) :
    SameNetwork 32 length ip.bits.toNat (ofOctets a b c d).bits.toNat ↔
      ip.octet 0 = a.toNat ∧ ip.octet 1 / 2 ^ (16 - length) = b.toNat / 2 ^ (16 - length) := by
  have hlt := ip.bits.isLt
  have ha := a.toNat_lt
  have hb := b.toNat_lt
  have hc := c.toNat_lt
  have hd := d.toNat_lt
  rw [SameNetwork, toNat_ofOctets, octet, octet]
  generalize ip.bits.toNat = n at *
  interval_cases length <;> simp <;> omega

/-- A block of addresses with the first three octets. -/
theorem sameNetwork_third :
    SameNetwork 32 24 ip.bits.toNat (ofOctets a b c d).bits.toNat ↔
      ip.octet 0 = a.toNat ∧ ip.octet 1 = b.toNat ∧ ip.octet 2 = c.toNat := by
  have hlt := ip.bits.isLt
  have ha := a.toNat_lt
  have hb := b.toNat_lt
  have hc := c.toNat_lt
  have hd := d.toNat_lt
  rw [SameNetwork, toNat_ofOctets, octet, octet, octet]
  omega

theorem octet_lt (i : Nat) : ip.octet i < 256 := Nat.mod_lt _ (by decide)

/-- The filter refuses exactly the addresses that are not part of the public network. -/
theorem blocked_iff : ip.blocked = true ↔ ip.IsSpecial := by
  have hzero : ip.bits = 0 → ip.octet 0 = 0 := by
    intro h
    rw [octet, h]
    rfl
  have hones : ip.bits = BitVec.ofNat 32 0xFFFFFFFF → 240 ≤ ip.octet 0 := by
    intro h
    rw [octet, h]
    decide
  have hmulticast : ip.octet 0 / 16 = 14 ↔ 224 ≤ ip.octet 0 ∧ ip.octet 0 ≤ 239 := by omega
  have hreserved : ip.octet 0 / 16 = 15 ↔ 240 ≤ ip.octet 0 := by
    have := ip.octet_lt 0
    omega
  have hshared : ip.octet 1 / 64 = 1 ↔ 64 ≤ ip.octet 1 ∧ ip.octet 1 ≤ 127 := by omega
  have hprivate : ip.octet 1 / 16 = 1 ↔ 16 ≤ ip.octet 1 ∧ ip.octet 1 ≤ 31 := by omega
  have hbenchmark : ip.octet 1 / 2 = 9 ↔ ip.octet 1 = 18 ∨ ip.octet 1 = 19 := by omega
  simp only [blocked, isPrivate, isLoopback, isLinkLocal, isUnspecified, isBroadcast,
    isDocumentation, isMulticast, Bool.or_eq_true, Bool.and_eq_true, decide_eq_true_eq]
  simp (disch := decide) only [IsSpecial, specialBlocks, List.exists_mem_cons_iff, sameNetwork_first,
    sameNetwork_second, sameNetwork_third]
  simp only [UInt8.reduceToNat, Nat.reducePow, Nat.reduceSub, Nat.reduceDiv, Nat.div_one,
    hmulticast, hreserved, hshared, hprivate, hbenchmark, List.not_mem_nil, false_and,
    exists_false, or_false, or_assoc]
  constructor
  · rintro (h | h | h | h | h | h | h | h | h | h | h | h | h | h | h | h | h | h)
    case inr.inr.inr.inr.inr.inl => simp [hzero h]
    case inr.inr.inr.inr.inr.inr.inl => simp [hones h]
    all_goals simp [h]
  · rintro (h | h | h | h | h | h | h | h | h | h | h | h | h | h | h)
    all_goals simp [h]

end Ipv4Addr

namespace Ipv6Addr

variable (ip : Ipv6Addr)

/-- The test for the block of documentation addresses. -/
theorem octets_iff : (ip.octet 0 = 0x20 ∧ ip.octet 1 = 0x01 ∧ ip.octet 2 = 0x0D ∧
    ip.octet 3 = 0xB8) ↔ ip.bits.toNat / 2 ^ 96 = 0x20010DB8 := by
  have hlt := ip.bits.isLt
  unfold octet
  omega

theorem isMulticast_iff : ip.isMulticast = true ↔ ip.bits.toNat / 2 ^ 120 = 0xFF := by
  have hlt := ip.bits.isLt
  rw [isMulticast, decide_eq_true_iff, octet]
  omega

/-- The blocks that the filter knows are those it tests. -/
theorem inBlocks_knownBlocks : ip.InBlocks knownBlocks ↔ ip.isUniqueLocal = true ∨
    ip.isUnicastLinkLocal = true ∨ ip.isMulticast = true ∨
    (ip.octet 0 = 0x20 ∧ ip.octet 1 = 0x01 ∧ ip.octet 2 = 0x0D ∧ ip.octet 3 = 0xB8) := by
  rw [octets_iff, isMulticast_iff, isUniqueLocal, isUnicastLinkLocal, decide_eq_true_iff,
    decide_eq_true_iff]
  simp [InBlocks, knownBlocks, SameNetwork, ofSegments]

/-- The filter on an address that is not a mapped one. -/
theorem blocked_of_not_mapped (h : ip.toIpv4Mapped = none) :
    ip.blocked = true ↔ ip.bits.toNat < 2 ∨ ip.InBlocks knownBlocks := by
  rw [inBlocks_knownBlocks, blocked, h]
  simp only [isLoopback, isUnspecified, Bool.or_eq_true, Bool.and_eq_true, decide_eq_true_eq,
    or_assoc, and_assoc]
  rw [← or_assoc]
  apply or_congr_left
  omega

/-- An address that carries an IPv4 address lies in no block of IPv6 itself. -/
theorem not_inBlocks_of_embedded {v4 : Ipv4Addr} (h : ip.embedded = some v4) :
    ¬ ip.InBlocks (knownBlocks ++ unknownBlocks) := by
  have hlt := ip.bits.isLt
  have hfront : ip.bits.toNat / 2 ^ 32 ∈ [0xFFFF, 0, 0x64FF9B * 2 ^ 64] ∨
      ip.bits.toNat / 2 ^ 112 = 0x2002 := by
    unfold embedded at h
    split at h
    · next hlow => exact .inl hlow
    · split at h
      · next hrelay => exact .inr hrelay
      · cases h
  simp only [List.mem_cons, List.not_mem_nil, or_false] at hfront
  simp [InBlocks, knownBlocks, unknownBlocks, SameNetwork, ofSegments]
  omega

/-- A mapped address carries the address that it is read as. -/
theorem embedded_of_mapped {v4 : Ipv4Addr} (h : ip.toIpv4Mapped = some v4) :
    ip.embedded = some v4 := by
  unfold toIpv4Mapped at h
  split at h
  · next hfront =>
    cases h
    rw [embedded, hfront]
    rfl
  · cases h

/-- The addresses `::` and `::1` carry addresses of this network. -/
theorem isSpecial_of_lt_two (h : ip.bits.toNat < 2) : ip.IsSpecial := by
  have hlow : ip.embedded = some ip.low := by
    rw [embedded, Nat.div_eq_of_lt (by omega)]
    rfl
  have hoctet : ip.low.octet 0 = 0 := by
    rw [Ipv4Addr.octet, low, BitVec.toNat_setWidth]
    omega
  rw [IsSpecial, hlow]
  refine ⟨(.ofOctets 0 0 0 0, 8), List.mem_cons_self, ?_⟩
  rw [Ipv4Addr.sameNetwork_first _ _ _ _ _ (by decide), hoctet]
  rfl

/-- The special addresses are those the filter refuses and those it misses. -/
theorem isSpecial_iff : ip.IsSpecial ↔ ip.blocked = true ∨ ip.IsMissed := by
  cases hmapped : ip.toIpv4Mapped with
  | some v4 =>
    have hembedded := ip.embedded_of_mapped hmapped
    rw [IsSpecial, IsMissed, blocked, hembedded, hmapped]
    simp [Ipv4Addr.blocked_iff]
  | none =>
    rw [ip.blocked_of_not_mapped hmapped]
    constructor
    · intro h
      by_cases hsmall : ip.bits.toNat < 2
      · exact .inl (.inl hsmall)
      · cases hembedded : ip.embedded with
        | some v4 =>
          rw [IsSpecial, hembedded] at h
          rw [IsMissed, hembedded]
          exact .inr ⟨hmapped, by omega, h⟩
        | none =>
          rw [IsSpecial, hembedded] at h
          rw [IsMissed, hembedded]
          obtain ⟨block, hblock, hin⟩ := h
          rcases List.mem_append.mp hblock with hknown | hunknown
          · exact .inl (.inr ⟨block, hknown, hin⟩)
          · exact .inr ⟨block, hunknown, hin⟩
    · intro h
      cases hembedded : ip.embedded with
      | some v4 =>
        rw [IsMissed, hembedded] at h
        rcases h with (hsmall | ⟨block, hblock, hin⟩) | ⟨-, -, hspecial⟩
        · exact ip.isSpecial_of_lt_two hsmall
        · exact absurd ⟨block, List.mem_append_left _ hblock, hin⟩
            (ip.not_inBlocks_of_embedded hembedded)
        · rw [IsSpecial, hembedded]
          exact hspecial
      | none =>
        rcases h with (hsmall | ⟨block, hblock, hin⟩) | hmissed
        · exact ip.isSpecial_of_lt_two hsmall
        · rw [IsSpecial, hembedded]
          exact ⟨block, List.mem_append_left _ hblock, hin⟩
        · rw [IsMissed, hembedded] at hmissed
          obtain ⟨block, hblock, hin⟩ := hmissed
          rw [IsSpecial, hembedded]
          exact ⟨block, List.mem_append_right _ hblock, hin⟩

end Ipv6Addr

namespace IpAddr

variable (ip : IpAddr)

/-- The special addresses are those the filter refuses and those it misses. -/
theorem isSpecial_iff : ip.IsSpecial ↔ blockedIp ip = true ∨ ip.IsMissed := by
  cases ip with
  | v4 ip => simp [IsSpecial, IsMissed, blockedIp, Ipv4Addr.blocked_iff]
  | v6 ip => exact ip.isSpecial_iff

/-- What the filter lets through is public exactly when the filter does not miss it. -/
theorem not_isSpecial_iff (h : blockedIp ip = false) : ¬ ip.IsSpecial ↔ ¬ ip.IsMissed := by
  simp [isSpecial_iff, h]

end IpAddr

end Vidarax.Ingest
