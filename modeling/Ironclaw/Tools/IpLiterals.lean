import Ironclaw.Lib.AddressBlocks
import Ironclaw.Lib.Lowercase
import Ironclaw.Tools.Pinning

/-!
# Hosts that are written as an address

`validate_url` reads the host of a URL as an address again. The text of an IPv6 host stands in brackets, which no
address has.

- `isDisallowedIp_iff`: the check on addresses covers exactly the reserved blocks of both families;
- `literal_refused_iff`: a reserved address in a URL is refused exactly when it is an IPv4 address.
-/

namespace Ironclaw.Tools.Http

open Text Net

/-- An address of a reserved class. -/
def Reserved (ip : IpAddr) : Prop := ∃ c : AddrClass, c.Has ip

/-! ## The check on addresses -/

theorem isDisallowedIpv4_iff (v4 : Ipv4Addr) : isDisallowedIpv4 v4 = true ↔ ∃ c : AddrClass, c.HasV4 v4.toNat := by
  have hmetadata : v4 = ⟨169, 254, 169, 254⟩ → v4.isLinkLocal = true := by
    rintro rfl
    rfl
  rw [hasV4_iff]
  simp only [isDisallowedIpv4, Bool.or_eq_true, Bool.and_eq_true, beq_iff_eq, v4.sharedSpace_iff,
    ← v4.isLoopback_iff, ← v4.isMulticast_iff, ← v4.isUnspecified_iff, ← v4.isLinkLocal_iff]
  have hprivate := v4.isPrivate_iff
  tauto

theorem isDisallowedIp_iff (ip : IpAddr) : isDisallowedIp ip = true ↔ Reserved ip := by
  cases ip with
  | v4 v4 => exact isDisallowedIpv4_iff v4
  | v6 v6 =>
    have hmapped : v6.toIpv4Mapped.any isDisallowedIpv4 = true ↔
        v6.toNat / 2 ^ 32 = 0xffff ∧ ∃ c : AddrClass, c.HasV4 (v6.toNat % 2 ^ 32) := by
      rw [Option.any_eq_true]
      constructor
      · rintro ⟨v4, hv4, hdis⟩
        obtain ⟨hhigh, hlow⟩ := (v6.toIpv4Mapped_iff v4).mp hv4
        exact ⟨hhigh, hlow ▸ (isDisallowedIpv4_iff v4).mp hdis⟩
      · rintro ⟨hhigh, hclass⟩
        obtain ⟨v4, hv4, hlow⟩ := v6.exists_toIpv4Mapped hhigh
        exact ⟨v4, hv4, (isDisallowedIpv4_iff v4).mpr (hlow ▸ hclass)⟩
    have hblocks := hasV6_iff v6.toNat
    simp only [← v6.isLoopback_iff, ← v6.isUniqueLocal_iff, ← v6.isUnicastLinkLocal_iff, ← v6.isMulticast_iff,
      ← v6.isUnspecified_iff] at hblocks
    simp only [Reserved, AddrClass.Has, exists_or, exists_and_left, ← hmapped, hblocks, isDisallowedIp, Bool.or_eq_true,
      or_assoc, or_comm, or_left_comm]

/-! ## The check on URLs -/

/-- The lower case of a host in brackets is no name. -/
theorem bracketed_ne_localhost (tables : LowerTables) (s : Str) :
    tables.toLowercase ('[' :: s ++ [']']) ≠ "localhost".toList ∧
      ¬".localhost".toList <:+ tables.toLowercase ('[' :: s ++ [']']) := by
  obtain ⟨front, hfront⟩ := tables.toLowercaseGo_append [']'] ('[' :: s) []
  have hend : tables.toLowercase ('[' :: s ++ [']']) = front ++ [']'] := by
    refine hfront.trans ?_
    rw [LowerTables.toLowercaseGo, tables.lowerAt_ascii rfl]
    rfl
  rw [hend]
  constructor
  · intro h
    have hlast := congrArg List.getLast? h
    rw [List.getLast?_append] at hlast
    cases hlast
  · rintro ⟨t, h⟩
    have hlast := congrArg List.getLast? h
    rw [List.getLast?_append, List.getLast?_append] at hlast
    cases hlast

variable {net : Network} {text : Str} {url : Url} {host : Host} {ip : IpAddr}

/-- A reserved IPv4 address is refused. -/
theorem validateUrl_ipv4 (hparse : net.urls.parse text = .ok url) (hhost : url.host = some host)
    (hlit : host.literal = some ip) (hres : Reserved ip) {v4 : Ipv4Addr} (hv4 : ip = .v4 v4) :
    ∃ e, validateUrl net text = .error e := by
  have hparseIp : host.parseIp = some ip := by
    subst hv4
    cases host with
    | domain _ => cases hlit
    | ipv4 _ => exact hlit
    | ipv6 _ => cases hlit
  simp only [validateUrl, hparse, requireHost, hhost, hparseIp, Option.any_some, (isDisallowedIp_iff ip).mpr hres,
    if_true]
  split_ifs <;> exact ⟨_, rfl⟩

/-- An IPv6 address is let through, whatever it is. -/
theorem validateUrl_ipv6 (tables : LowerTables) (hlower : net.case.lower = tables.toLowercase)
    (hparse : net.urls.parse text = .ok url) (hhttps : url.scheme = "https".toList) {v6 : Ipv6Addr}
    (hhost : url.host = some (.ipv6 v6)) : validateUrl net text = .ok url := by
  obtain ⟨hname, hsuffix⟩ := bracketed_ne_localhost tables v6.compressedText
  simp only [validateUrl, hparse, requireHost, hhost, hhttps, Host.str, Host.parseIp, hlower, ne_eq, not_true, if_false,
    hname, hsuffix, or_self, Option.any_none, Bool.false_eq_true]

/-- **Reserved addresses in URLs.** A URL with a reserved address as its host is refused exactly when the address is an
IPv4 address. -/
theorem literal_refused_iff (net : Network) (tables : LowerTables) (hlower : net.case.lower = tables.toLowercase)
    (text : Str) (url : Url) (host : Host) (ip : IpAddr) (hparse : net.urls.parse text = .ok url)
    (hhttps : url.scheme = "https".toList) (hhost : url.host = some host) (hlit : host.literal = some ip)
    (hres : Reserved ip) : (∃ e, validateUrl net text = .error e) ↔ ∃ v4, ip = .v4 v4 := by
  constructor
  · rintro ⟨e, he⟩
    cases host with
    | domain _ => cases hlit
    | ipv4 v4 => exact ⟨v4, (Option.some.inj hlit).symm⟩
    | ipv6 v6 =>
      rw [validateUrl_ipv6 tables hlower hparse hhttps hhost] at he
      cases he
  · rintro ⟨v4, hv4⟩
    exact validateUrl_ipv4 hparse hhost hlit hres hv4

def hostUrl (host : Host) : Url := ⟨"https".toList, [], some host, none, "/".toList, none, none⟩

/-- A network without hosts, whose parser knows two URLs. -/
def twoUrls : Network where
  urls :=
    { parse := fun text =>
        if text = "https://10.0.0.1/".toList then .ok (hostUrl (.ipv4 ⟨10, 0, 0, 1⟩))
        else if text = "https://[::1]/".toList then .ok (hostUrl (.ipv6 ⟨0, 0, 0, 0, 0, 0, 0, 1⟩))
        else .error []
      join := fun _ _ => .error []
      appendPair := fun _ _ _ => [] }
  json := ⟨fun _ => .error [], fun _ => []⟩
  case := ⟨LowerTables.asciiOnly.toLowercase, id⟩
  isWord _ := false
  dns _ _ _ := .ok []
  buildError _ := none
  serve _ _ _ := .error .timeout
  lossy _ := []
  htmlToMarkdown := none
  saveFile _ _ := .ok ()

theorem private_literal_refused :
    twoUrls.urls.parse "https://10.0.0.1/".toList = .ok (hostUrl (.ipv4 ⟨10, 0, 0, 1⟩)) ∧
      ((∃ e, validateUrl twoUrls "https://10.0.0.1/".toList = .error e) ↔ ∃ v4, IpAddr.v4 ⟨10, 0, 0, 1⟩ = .v4 v4) := by
  have hparse : twoUrls.urls.parse "https://10.0.0.1/".toList = .ok (hostUrl (.ipv4 ⟨10, 0, 0, 1⟩)) := by
    simp only [twoUrls, if_true]
  have hres : Reserved (.v4 ⟨10, 0, 0, 1⟩) := ⟨.privateUse, _, List.mem_cons_self, rfl⟩
  exact ⟨hparse, literal_refused_iff twoUrls LowerTables.asciiOnly rfl _ _ _ _ hparse rfl rfl rfl hres⟩

/-- The loopback address of IPv6 is let through. -/
theorem loopback_literal_accepted :
    twoUrls.urls.parse "https://[::1]/".toList = .ok (hostUrl (.ipv6 ⟨0, 0, 0, 0, 0, 0, 0, 1⟩)) ∧
      AddrClass.loopback.Has (.v6 ⟨0, 0, 0, 0, 0, 0, 0, 1⟩) ∧
      ¬∃ e, validateUrl twoUrls "https://[::1]/".toList = .error e := by
  have hparse : twoUrls.urls.parse "https://[::1]/".toList = .ok (hostUrl (.ipv6 ⟨0, 0, 0, 0, 0, 0, 0, 1⟩)) := by
    have hne : "https://[::1]/".toList ≠ "https://10.0.0.1/".toList := by decide
    simp only [twoUrls, hne, if_false, if_true]
  refine ⟨hparse, .inl ⟨_, List.mem_cons_self, rfl⟩, ?_⟩
  rintro ⟨e, he⟩
  rw [validateUrl_ipv6 LowerTables.asciiOnly rfl hparse rfl rfl] at he
  cases he

end Ironclaw.Tools.Http
