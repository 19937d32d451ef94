import Mathlib.Data.List.Basic
import Ironclaw.Lib.Net

/-!
# Blocks of addresses

An address as a number, and the blocks of addresses that share a prefix. A class of addresses is given by its blocks;
the predicates of `std::net` are characterised by them.

- `and_highMask`: the bits under a mask without low bits, by division;
- `isPrivate_iff` and its siblings: each predicate on addresses is membership in the blocks of its class.
-/

namespace Ironclaw.Net

/-! ## Bits and numbers -/

/-- A mask of `m` ones followed by `k` zeros. -/
theorem and_highMask (x k m : Nat) : x &&& 2 ^ k * (2 ^ m - 1) = 2 ^ k * (x / 2 ^ k % 2 ^ m) := by
  refine Nat.eq_of_testBit_eq fun i => ?_
  rw [Nat.testBit_and, Nat.testBit_two_pow_mul, Nat.testBit_two_pow_mul, Nat.testBit_two_pow_sub_one,
    Nat.testBit_mod_two_pow, Nat.testBit_div_two_pow]
  by_cases hi : k ≤ i
  · rw [Nat.sub_add_cancel hi]
    cases x.testBit i <;> simp [hi]
  · simp [hi]

def Ipv4Addr.toNat (v4 : Ipv4Addr) : Nat :=
  ((v4.a.toNat * 256 + v4.b.toNat) * 256 + v4.c.toNat) * 256 + v4.d.toNat

def Ipv6Addr.toNat (v6 : Ipv6Addr) : Nat := v6.segments.foldl (fun n s => n * 65536 + s.toNat) 0

/-- The numbers of `width` bits that share their first `len` bits with `base`. -/
def InBlock (width base len n : Nat) : Prop := n / 2 ^ (width - len) = base / 2 ^ (width - len)

/-! ## Classes of addresses -/

inductive AddrClass
  | loopback
  | privateUse
  | uniqueLocal
  | linkLocal
  | multicast
  | unspecified
  | carrierNat
  deriving DecidableEq

/-- The IPv4 blocks of a class, each with the length of its prefix. -/
def AddrClass.blocksV4 : AddrClass → List (Ipv4Addr × Nat)
  | .loopback => [(⟨127, 0, 0, 0⟩, 8)]
  | .privateUse => [(⟨10, 0, 0, 0⟩, 8), (⟨172, 16, 0, 0⟩, 12), (⟨192, 168, 0, 0⟩, 16)]
  | .uniqueLocal => []
  | .linkLocal => [(⟨169, 254, 0, 0⟩, 16)]
  | .multicast => [(⟨224, 0, 0, 0⟩, 4)]
  | .unspecified => [(⟨0, 0, 0, 0⟩, 32)]
  | .carrierNat => [(⟨100, 64, 0, 0⟩, 10)]

/-- The IPv6 blocks of a class. -/
def AddrClass.blocksV6 : AddrClass → List (Ipv6Addr × Nat)
  | .loopback => [(⟨0, 0, 0, 0, 0, 0, 0, 1⟩, 128)]
  | .privateUse => []
  | .uniqueLocal => [(⟨0xfc00, 0, 0, 0, 0, 0, 0, 0⟩, 7)]
  | .linkLocal => [(⟨0xfe80, 0, 0, 0, 0, 0, 0, 0⟩, 10)]
  | .multicast => [(⟨0xff00, 0, 0, 0, 0, 0, 0, 0⟩, 8)]
  | .unspecified => [(⟨0, 0, 0, 0, 0, 0, 0, 0⟩, 128)]
  | .carrierNat => []

/-- A number of 32 bits in an IPv4 block of the class. -/
def AddrClass.HasV4 (c : AddrClass) (n : Nat) : Prop := ∃ b ∈ c.blocksV4, InBlock 32 b.1.toNat b.2 n

/-- An address of the class. The mapped IPv6 addresses, `::ffff:0:0/96`, are of the classes of their last 32 bits. -/
def AddrClass.Has (c : AddrClass) : IpAddr → Prop
  | .v4 v4 => c.HasV4 v4.toNat
  | .v6 v6 =>
    (∃ b ∈ c.blocksV6, InBlock 128 b.1.toNat b.2 v6.toNat) ∨ (v6.toNat / 2 ^ 32 = 0xffff ∧ c.HasV4 (v6.toNat % 2 ^ 32))

/-! ## IPv4 -/

/-- The classes with IPv4 blocks, by the first bits of a number of 32 bits. -/
theorem hasV4_iff (n : Nat) : (∃ c : AddrClass, c.HasV4 n) ↔
    n / 2 ^ 24 = 127 ∨ n / 2 ^ 24 = 10 ∨ n / 2 ^ 20 = 172 * 16 + 1 ∨ n / 2 ^ 16 = 192 * 256 + 168 ∨
      n / 2 ^ 16 = 169 * 256 + 254 ∨ n / 2 ^ 28 = 14 ∨ n = 0 ∨ n / 2 ^ 22 = 100 * 4 + 1 := by
  constructor
  · rintro ⟨c, b, hb, hn⟩
    cases c <;> simp only [AddrClass.blocksV4, List.mem_cons, List.not_mem_nil, or_false] at hb
    case loopback => subst hb; exact .inl hn
    case privateUse =>
      rcases hb with rfl | rfl | rfl
      · exact .inr (.inl hn)
      · exact .inr (.inr (.inl hn))
      · exact .inr (.inr (.inr (.inl hn)))
    case linkLocal => subst hb; exact .inr (.inr (.inr (.inr (.inl hn))))
    case multicast => subst hb; exact .inr (.inr (.inr (.inr (.inr (.inl hn)))))
    case unspecified =>
      subst hb
      simp only [InBlock, Nat.sub_self, Nat.pow_zero, Nat.div_one] at hn
      exact .inr (.inr (.inr (.inr (.inr (.inr (.inl hn))))))
    case carrierNat => subst hb; exact .inr (.inr (.inr (.inr (.inr (.inr (.inr hn))))))
  · rintro (h | h | h | h | h | h | h | h)
    · exact ⟨.loopback, _, List.mem_cons_self, h⟩
    · exact ⟨.privateUse, _, List.mem_cons_self, h⟩
    · exact ⟨.privateUse, _, List.mem_cons_of_mem _ List.mem_cons_self, h⟩
    · exact ⟨.privateUse, _, List.mem_cons_of_mem _ (List.mem_cons_of_mem _ List.mem_cons_self), h⟩
    · exact ⟨.linkLocal, _, List.mem_cons_self, h⟩
    · exact ⟨.multicast, _, List.mem_cons_self, h⟩
    · exact ⟨.unspecified, _, List.mem_cons_self, by subst h; rfl⟩
    · exact ⟨.carrierNat, _, List.mem_cons_self, h⟩

namespace Ipv4Addr

variable (v4 : Ipv4Addr)

theorem eq_iff_toNat (w4 : Ipv4Addr) : v4 = w4 ↔ v4.toNat = w4.toNat := by
  obtain ⟨a, b, c, d⟩ := v4
  obtain ⟨a', b', c', d'⟩ := w4
  have h : ∀ s : UInt8, s.toNat < 256 := fun s => s.toNat_lt
  have := h b; have := h c; have := h d; have := h b'; have := h c'; have := h d'
  simp only [mk.injEq, ← UInt8.toNat_inj, toNat]
  omega

/-- The octets of a number, from the front. -/
theorem toNat_div : v4.toNat / 2 ^ 24 = v4.a.toNat ∧ v4.toNat / 2 ^ 16 = v4.a.toNat * 256 + v4.b.toNat := by
  have := v4.b.toNat_lt
  have := v4.c.toNat_lt
  have := v4.d.toNat_lt
  unfold toNat
  omega

theorem isLoopback_iff : v4.isLoopback = true ↔ v4.toNat / 2 ^ 24 = 127 := by
  rw [v4.toNat_div.1, isLoopback, beq_iff_eq, ← UInt8.toNat_inj]
  rfl

theorem isPrivate_iff : v4.isPrivate = true ↔
    v4.toNat / 2 ^ 24 = 10 ∨ v4.toNat / 2 ^ 20 = 172 * 16 + 1 ∨ v4.toNat / 2 ^ 16 = 192 * 256 + 168 := by
  have hb := v4.b.toNat_lt
  have hdiv : v4.toNat / 2 ^ 20 = (v4.a.toNat * 256 + v4.b.toNat) / 2 ^ 4 := by
    rw [← v4.toNat_div.2, Nat.div_div_eq_div_mul, ← Nat.pow_add]
  rw [hdiv, v4.toNat_div.1, v4.toNat_div.2]
  simp only [isPrivate, Bool.or_eq_true, Bool.and_eq_true, beq_iff_eq, decide_eq_true_eq, ← UInt8.toNat_inj,
    UInt8.le_iff_toNat_le, UInt8.reduceToNat]
  omega

theorem isLinkLocal_iff : v4.isLinkLocal = true ↔ v4.toNat / 2 ^ 16 = 169 * 256 + 254 := by
  have := v4.b.toNat_lt
  rw [v4.toNat_div.2]
  simp only [isLinkLocal, Bool.and_eq_true, beq_iff_eq, ← UInt8.toNat_inj, UInt8.reduceToNat]
  omega

theorem isMulticast_iff : v4.isMulticast = true ↔ v4.toNat / 2 ^ 28 = 14 := by
  have hdiv : v4.toNat / 2 ^ 28 = v4.a.toNat / 2 ^ 4 := by
    rw [← v4.toNat_div.1, Nat.div_div_eq_div_mul, ← Nat.pow_add]
  rw [hdiv]
  simp only [isMulticast, Bool.and_eq_true, decide_eq_true_eq, UInt8.le_iff_toNat_le, UInt8.reduceToNat]
  omega

theorem isUnspecified_iff : v4.isUnspecified = true ↔ v4.toNat = 0 := by
  rw [isUnspecified, decide_eq_true_eq, eq_iff_toNat]
  rfl

/-- `100.64.0.0/10`, as the octets are tested. -/
theorem sharedSpace_iff : v4.a = 100 ∧ v4.b &&& 0xC0 = 64 ↔ v4.toNat / 2 ^ 22 = 100 * 4 + 1 := by
  have hb := v4.b.toNat_lt
  have hdiv : v4.toNat / 2 ^ 22 = (v4.a.toNat * 256 + v4.b.toNat) / 2 ^ 6 := by
    rw [← v4.toNat_div.2, Nat.div_div_eq_div_mul, ← Nat.pow_add]
  have hmask : (v4.b &&& 0xC0).toNat = 2 ^ 6 * (v4.b.toNat / 2 ^ 6 % 2 ^ 2) := and_highMask v4.b.toNat 6 2
  rw [hdiv, ← UInt8.toNat_inj, ← UInt8.toNat_inj, hmask]
  simp only [UInt8.reduceToNat]
  omega

end Ipv4Addr

/-! ## IPv6 -/

/-- The classes with IPv6 blocks, by the first bits of a number of 128 bits. -/
theorem hasV6_iff (n : Nat) : (∃ c : AddrClass, ∃ b ∈ c.blocksV6, InBlock 128 b.1.toNat b.2 n) ↔
    n = 1 ∨ n / 2 ^ 121 = 126 ∨ n / 2 ^ 118 = 1018 ∨ n / 2 ^ 120 = 255 ∨ n = 0 := by
  constructor
  · rintro ⟨c, b, hb, hn⟩
    cases c <;> simp only [AddrClass.blocksV6, List.mem_cons, List.not_mem_nil, or_false] at hb
    case loopback =>
      subst hb
      simp only [InBlock, Nat.sub_self, Nat.pow_zero, Nat.div_one] at hn
      exact .inl hn
    case uniqueLocal => subst hb; exact .inr (.inl hn)
    case linkLocal => subst hb; exact .inr (.inr (.inl hn))
    case multicast => subst hb; exact .inr (.inr (.inr (.inl hn)))
    case unspecified =>
      subst hb
      simp only [InBlock, Nat.sub_self, Nat.pow_zero, Nat.div_one] at hn
      exact .inr (.inr (.inr (.inr hn)))
  · rintro (h | h | h | h | h)
    · exact ⟨.loopback, _, List.mem_cons_self, by subst h; rfl⟩
    · exact ⟨.uniqueLocal, _, List.mem_cons_self, h⟩
    · exact ⟨.linkLocal, _, List.mem_cons_self, h⟩
    · exact ⟨.multicast, _, List.mem_cons_self, h⟩
    · exact ⟨.unspecified, _, List.mem_cons_self, by subst h; rfl⟩

namespace Ipv6Addr

variable (v6 : Ipv6Addr)

/-- The first segment of a number, and its last two. -/
theorem toNat_div : v6.toNat / 2 ^ 112 = v6.s0.toNat ∧ v6.toNat % 2 ^ 32 = v6.s6.toNat * 65536 + v6.s7.toNat := by
  have := v6.s1.toNat_lt
  have := v6.s2.toNat_lt
  have := v6.s3.toNat_lt
  have := v6.s4.toNat_lt
  have := v6.s5.toNat_lt
  have := v6.s6.toNat_lt
  have := v6.s7.toNat_lt
  simp only [toNat, segments, List.foldl_cons, List.foldl_nil]
  omega

theorem isUniqueLocal_iff : v6.isUniqueLocal = true ↔ v6.toNat / 2 ^ 121 = 126 := by
  have hs := v6.s0.toNat_lt
  have hdiv : v6.toNat / 2 ^ 121 = v6.s0.toNat / 2 ^ 9 := by
    rw [← v6.toNat_div.1, Nat.div_div_eq_div_mul, ← Nat.pow_add]
  have hmask : (v6.s0 &&& 0xfe00).toNat = 2 ^ 9 * (v6.s0.toNat / 2 ^ 9 % 2 ^ 7) := and_highMask v6.s0.toNat 9 7
  rw [hdiv, isUniqueLocal, beq_iff_eq, ← UInt16.toNat_inj, hmask]
  simp only [UInt16.reduceToNat]
  omega

theorem isUnicastLinkLocal_iff : v6.isUnicastLinkLocal = true ↔ v6.toNat / 2 ^ 118 = 1018 := by
  have hs := v6.s0.toNat_lt
  have hdiv : v6.toNat / 2 ^ 118 = v6.s0.toNat / 2 ^ 6 := by
    rw [← v6.toNat_div.1, Nat.div_div_eq_div_mul, ← Nat.pow_add]
  have hmask : (v6.s0 &&& 0xffc0).toNat = 2 ^ 6 * (v6.s0.toNat / 2 ^ 6 % 2 ^ 10) := and_highMask v6.s0.toNat 6 10
  rw [hdiv, isUnicastLinkLocal, beq_iff_eq, ← UInt16.toNat_inj, hmask]
  simp only [UInt16.reduceToNat]
  omega

theorem isMulticast_iff : v6.isMulticast = true ↔ v6.toNat / 2 ^ 120 = 255 := by
  have hs := v6.s0.toNat_lt
  have hdiv : v6.toNat / 2 ^ 120 = v6.s0.toNat / 2 ^ 8 := by
    rw [← v6.toNat_div.1, Nat.div_div_eq_div_mul, ← Nat.pow_add]
  have hmask : (v6.s0 &&& 0xff00).toNat = 2 ^ 8 * (v6.s0.toNat / 2 ^ 8 % 2 ^ 8) := and_highMask v6.s0.toNat 8 8
  rw [hdiv, isMulticast, beq_iff_eq, ← UInt16.toNat_inj, hmask]
  simp only [UInt16.reduceToNat]
  omega

theorem eq_iff_toNat (w6 : Ipv6Addr) : v6 = w6 ↔ v6.toNat = w6.toNat := by
  obtain ⟨s0, s1, s2, s3, s4, s5, s6, s7⟩ := v6
  obtain ⟨t0, t1, t2, t3, t4, t5, t6, t7⟩ := w6
  have h : ∀ s : UInt16, s.toNat < 65536 := fun s => s.toNat_lt
  have := h s1; have := h s2; have := h s3; have := h s4; have := h s5; have := h s6
  have := h t1; have := h t2; have := h t3; have := h t4; have := h t5; have := h t6
  have := h s7; have := h t7
  simp only [mk.injEq, ← UInt16.toNat_inj, toNat, segments, List.foldl_cons, List.foldl_nil]
  omega

theorem isLoopback_iff : v6.isLoopback = true ↔ v6.toNat = 1 := by
  rw [isLoopback, decide_eq_true_eq, eq_iff_toNat]
  rfl

theorem isUnspecified_iff : v6.isUnspecified = true ↔ v6.toNat = 0 := by
  rw [isUnspecified, decide_eq_true_eq, eq_iff_toNat]
  rfl

theorem toNat_lastOctets :
    (Ipv4Addr.mk (v6.s6 >>> 8).toUInt8 v6.s6.toUInt8 (v6.s7 >>> 8).toUInt8 v6.s7.toUInt8).toNat =
      v6.toNat % 2 ^ 32 := by
  have h6 := v6.s6.toNat_lt
  have h7 := v6.s7.toNat_lt
  rw [v6.toNat_div.2]
  simp only [Ipv4Addr.toNat, UInt16.toNat_toUInt8, UInt16.toNat_shiftRight, UInt16.reduceToNat, Nat.reduceMod,
    Nat.shiftRight_eq_div_pow]
  omega

/-- The mapped addresses, and what they are mapped from. -/
theorem toIpv4Mapped_iff (v4 : Ipv4Addr) :
    v6.toIpv4Mapped = some v4 ↔ v6.toNat / 2 ^ 32 = 0xffff ∧ v4.toNat = v6.toNat % 2 ^ 32 := by
  have hhigh : v6.segments.take 6 = [0, 0, 0, 0, 0, 0xffff] ↔ v6.toNat / 2 ^ 32 = 0xffff := by
    have h : ∀ s : UInt16, s.toNat < 65536 := fun s => s.toNat_lt
    have := h v6.s1; have := h v6.s2; have := h v6.s3; have := h v6.s4; have := h v6.s5; have := h v6.s6
    have := h v6.s7
    simp only [segments, List.take_succ_cons, List.take_zero, List.cons.injEq, and_true, ← UInt16.toNat_inj,
      UInt16.reduceToNat, toNat, List.foldl_cons, List.foldl_nil]
    omega
  unfold toIpv4Mapped
  rw [← hhigh]
  split
  next h =>
    rw [Option.some_inj, Ipv4Addr.eq_iff_toNat, v6.toNat_lastOctets, eq_comm]
    exact (and_iff_right h).symm
  next h =>
    constructor
    · intro hnone
      cases hnone
    · exact fun hmapped => absurd hmapped.1 h

theorem exists_toIpv4Mapped (h : v6.toNat / 2 ^ 32 = 0xffff) :
    ∃ v4, v6.toIpv4Mapped = some v4 ∧ v4.toNat = v6.toNat % 2 ^ 32 :=
  ⟨_, (v6.toIpv4Mapped_iff _).mpr ⟨h, v6.toNat_lastOctets⟩, v6.toNat_lastOctets⟩

end Ipv6Addr

end Ironclaw.Net
