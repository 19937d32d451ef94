import Ironclaw.Lib.Text

/-!
# Addresses and URLs

The IP addresses of `std::net` with their classes and texts, and URLs as a parser returns them. A host that is written
as an address is kept as an address (`Host`); parsing and joining URLs are parameters (`UrlParser`).
-/

namespace Ironclaw.Net

open Text

/-! ## Addresses -/

structure Ipv4Addr where
  a : UInt8
  b : UInt8
  c : UInt8
  d : UInt8
  deriving DecidableEq

namespace Ipv4Addr

variable (v4 : Ipv4Addr)

def isPrivate : Bool := v4.a == 10 || (v4.a == 172 && 16 ≤ v4.b && v4.b ≤ 31) || (v4.a == 192 && v4.b == 168)

def isLoopback : Bool := v4.a == 127

def isLinkLocal : Bool := v4.a == 169 && v4.b == 254

def isMulticast : Bool := 224 ≤ v4.a && v4.a ≤ 239

def isUnspecified : Bool := v4 = ⟨0, 0, 0, 0⟩

def toText : Str := join ".".toList ([v4.a, v4.b, v4.c, v4.d].map fun n => (Nat.repr n.toNat).toList)

end Ipv4Addr

structure Ipv6Addr where
  s0 : UInt16
  s1 : UInt16
  s2 : UInt16
  s3 : UInt16
  s4 : UInt16
  s5 : UInt16
  s6 : UInt16
  s7 : UInt16
  deriving DecidableEq

namespace Ipv6Addr

variable (v6 : Ipv6Addr)

def segments : List UInt16 := [v6.s0, v6.s1, v6.s2, v6.s3, v6.s4, v6.s5, v6.s6, v6.s7]

/-- `::ffff:a.b.c.d`. -/
def toIpv4Mapped : Option Ipv4Addr :=
  if v6.segments.take 6 = [0, 0, 0, 0, 0, 0xffff] then
    some ⟨(v6.s6 >>> 8).toUInt8, v6.s6.toUInt8, (v6.s7 >>> 8).toUInt8, v6.s7.toUInt8⟩
  else none

def isLoopback : Bool := v6 = ⟨0, 0, 0, 0, 0, 0, 0, 1⟩

def isUniqueLocal : Bool := v6.s0 &&& 0xfe00 == 0xfc00

def isUnicastLinkLocal : Bool := v6.s0 &&& 0xffc0 == 0xfe80

def isMulticast : Bool := v6.s0 &&& 0xff00 == 0xff00

def isUnspecified : Bool := v6 = ⟨0, 0, 0, 0, 0, 0, 0, 0⟩

/-- The start and the length of the first of the longest runs of zeros, if it is of two segments at least. -/
def longestZeros (segments : List UInt16) : Option (Nat × Nat) :=
  let runs := (List.range segments.length).map fun i => (i, ((segments.drop i).takeWhile (· == 0)).length)
  let best := runs.foldl (fun best r => if best.2 < r.2 then r else best) (0, 0)
  if 2 ≤ best.2 then some best else none

def hexText (segments : List UInt16) : Str := join ":".toList (segments.map fun n => Nat.toDigits 16 n.toNat)

/-- The text with the longest run of zeros left out. -/
def compressedText : Str :=
  match longestZeros v6.segments with
  | none => hexText v6.segments
  | some (start, len) => hexText (v6.segments.take start) ++ "::".toList ++ hexText (v6.segments.drop (start + len))

/-- The text that the standard library prints, with the decimal form of a mapped address. -/
def toText : Str :=
  match v6.toIpv4Mapped with
  | some v4 => "::ffff:".toList ++ v4.toText
  | none => v6.compressedText

end Ipv6Addr

inductive IpAddr
  | v4 (addr : Ipv4Addr)
  | v6 (addr : Ipv6Addr)
  deriving DecidableEq

def IpAddr.toText : IpAddr → Str
  | .v4 addr => addr.toText
  | .v6 addr => addr.toText

structure SocketAddr where
  ip : IpAddr
  port : Nat
  deriving DecidableEq

/-! ## URLs -/

/-- The host of a URL. -/
inductive Host
  | domain (name : Str)
  | ipv4 (addr : Ipv4Addr)
  | ipv6 (addr : Ipv6Addr)
  deriving DecidableEq

/-- `host_str`: an IPv6 address stands in brackets. -/
def Host.str : Host → Str
  | .domain name => name
  | .ipv4 addr => addr.toText
  | .ipv6 addr => '[' :: addr.compressedText ++ [']']

/-- The address that a host is written as. -/
def Host.literal : Host → Option IpAddr
  | .domain _ => none
  | .ipv4 addr => some (.v4 addr)
  | .ipv6 addr => some (.v6 addr)

/-- `host_str().parse::<IpAddr>()`: brackets are not part of the text of an address. A domain never has the form of an
address, for the URL parser takes such a host as an address. -/
def Host.parseIp : Host → Option IpAddr
  | .ipv4 addr => some (.v4 addr)
  | _ => none

/-- A parsed URL; `userinfo` is empty or ends with `@`, and `port` is kept when it is not the one of the scheme. -/
structure Url where
  scheme : Str
  userinfo : Str
  host : Option Host
  port : Option Nat
  path : Str
  query : Option Str
  fragment : Option Str
  deriving DecidableEq

namespace Url

variable (url : Url)

def hostStr : Option Str := url.host.map Host.str

/-- The port of a known scheme. -/
def knownPort (scheme : Str) : Option Nat :=
  if scheme = "http".toList ∨ scheme = "ws".toList then some 80
  else if scheme = "https".toList ∨ scheme = "wss".toList then some 443
  else if scheme = "ftp".toList then some 21
  else none

def portOrKnownDefault : Option Nat := url.port <|> knownPort url.scheme

/-- The part of a URL that names the host. -/
def authority : Str :=
  match url.hostStr with
  | none => []
  | some host =>
    "//".toList ++ url.userinfo ++ host ++ (url.port.elim [] fun p => ':' :: (Nat.repr p).toList)

def asStr : Str :=
  url.scheme ++ ":".toList ++ url.authority ++ url.path ++ (url.query.elim [] fun q => '?' :: q) ++
    url.fragment.elim [] fun f => '#' :: f

end Url

/-- The operations of the URL library. -/
structure UrlParser where
  parse : Str → Except Str Url
  join : Url → Str → Except Str Url
  /-- The text of a query with a pair appended to it, as a form is encoded. -/
  appendPair : Option Str → (name value : Str) → Str

/-- `query_pairs_mut().append_pair`. -/
def Url.appendPair (urls : UrlParser) (url : Url) (name value : Str) : Url :=
  { url with query := some (urls.appendPair url.query name value) }

/-- What a client does with redirects: it follows none, or up to a number of them. -/
inductive RedirectPolicy
  | none
  | limited (n : Nat)
  deriving DecidableEq

end Ironclaw.Net
