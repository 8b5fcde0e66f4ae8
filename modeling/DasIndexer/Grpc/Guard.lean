import DasIndexer.Schema.Values

/-!
# Where a metadata download may go

The URI of an asset is whatever its creator wrote on chain.  `isGlobal` says which addresses are globally
routable, and `hostAllowed` applies it to a URL whose host is a literal address; a domain name is checked
when it is resolved.  IPFS content is sent to one gateway that the operator configures and trusts
(`Gateway.rewrite`).  `route` is what the downloader makes of a URI before it connects to anything.

Parsing and serialising a URL are the parameter `UrlCrate`.
-/

namespace DasIndexer.Grpc

/-! ### Addresses -/

/-- `Ipv4Addr`, by its octets. -/
structure Ipv4Addr where
  a : UInt8
  b : UInt8
  c : UInt8
  d : UInt8
deriving DecidableEq

/-- `Ipv6Addr`, by its segments. -/
structure Ipv6Addr where
  s0 : UInt16
  s1 : UInt16
  s2 : UInt16
  s3 : UInt16
  s4 : UInt16
  s5 : UInt16
  s6 : UInt16
  s7 : UInt16
deriving DecidableEq

inductive IpAddr where
  | v4 (ip : Ipv4Addr)
  | v6 (ip : Ipv6Addr)
deriving DecidableEq

namespace Ipv4Addr

def isUnspecified (ip : Ipv4Addr) : Bool := ip = ⟨0, 0, 0, 0⟩

def isLoopback (ip : Ipv4Addr) : Bool := ip.a = 127

def isPrivate (ip : Ipv4Addr) : Bool :=
  ip.a = 10 ∨ (ip.a = 172 ∧ 16 ≤ ip.b ∧ ip.b ≤ 31) ∨ (ip.a = 192 ∧ ip.b = 168)

def isLinkLocal (ip : Ipv4Addr) : Bool := ip.a = 169 ∧ ip.b = 254

def isBroadcast (ip : Ipv4Addr) : Bool := ip = ⟨255, 255, 255, 255⟩

def isDocumentation (ip : Ipv4Addr) : Bool :=
  (ip.a = 192 ∧ ip.b = 0 ∧ ip.c = 2) ∨ (ip.a = 198 ∧ ip.b = 51 ∧ ip.c = 100)
    ∨ (ip.a = 203 ∧ ip.b = 0 ∧ ip.c = 113)

def isMulticast (ip : Ipv4Addr) : Bool := 224 ≤ ip.a ∧ ip.a ≤ 239

def text (ip : Ipv4Addr) : String :=
  toString ip.a ++ "." ++ toString ip.b ++ "." ++ toString ip.c ++ "." ++ toString ip.d

end Ipv4Addr

namespace Ipv6Addr

def isUnspecified (ip : Ipv6Addr) : Bool := ip = ⟨0, 0, 0, 0, 0, 0, 0, 0⟩

def isLoopback (ip : Ipv6Addr) : Bool := ip = ⟨0, 0, 0, 0, 0, 0, 0, 1⟩

def isMulticast (ip : Ipv6Addr) : Bool := ip.s0 &&& 0xff00 = 0xff00

/-- `to_ipv4`: the address that an IPv4-compatible or IPv4-mapped address embeds. -/
def toIpv4 (ip : Ipv6Addr) : Option Ipv4Addr :=
  if ip.s0 = 0 ∧ ip.s1 = 0 ∧ ip.s2 = 0 ∧ ip.s3 = 0 ∧ ip.s4 = 0 ∧ (ip.s5 = 0 ∨ ip.s5 = 0xffff) then
    some ⟨(ip.s6 >>> 8).toUInt8, ip.s6.toUInt8, (ip.s7 >>> 8).toUInt8, ip.s7.toUInt8⟩
  else none

end Ipv6Addr

/-- `is_global_v4`. -/
def isGlobalV4 (ip : Ipv4Addr) : Bool :=
  !(ip.isUnspecified || ip.isLoopback || ip.isPrivate || ip.isLinkLocal || ip.isBroadcast
    || ip.isDocumentation || ip.isMulticast
    || ip.a = 0
    || (ip.a = 100 ∧ ip.b &&& 0xc0 = 64)
    || (ip.a = 192 ∧ ip.b = 0 ∧ ip.c = 0)
    || (ip.a = 198 ∧ ip.b &&& 0xfe = 18)
    || ip.a ≥ 240)

/-- `is_global_v6`. -/
def isGlobalV6 (ip : Ipv6Addr) : Bool :=
  !(ip.isUnspecified || ip.isLoopback || ip.isMulticast
    || ip.s0 &&& 0xfe00 = 0xfc00
    || ip.s0 &&& 0xffc0 = 0xfe80
    || (ip.s0 = 0x2001 ∧ ip.s1 = 0x0db8)
    || (ip.s0 = 0x0064 ∧ ip.s1 = 0xff9b))

/-- `is_global`. -/
def isGlobal : IpAddr → Bool
  | .v4 ip => isGlobalV4 ip
  | .v6 ip =>
    match ip.toIpv4 with
    | some v4 => isGlobalV4 v4
    | none => isGlobalV6 ip

example : isGlobal (.v4 ⟨169, 254, 169, 254⟩) = false ∧ isGlobal (.v4 ⟨1, 1, 1, 1⟩) = true := by decide

/-- `::ffff:127.0.0.1` is as little global as `127.0.0.1`. -/
example : isGlobal (.v6 ⟨0, 0, 0, 0, 0, 0xffff, 0x7f00, 1⟩) = false := by decide

/-! ### URLs -/

/-- `url::Host`. -/
inductive Host where
  | domain (name : String)
  | ipv4 (ip : Ipv4Addr)
  | ipv6 (ip : Ipv6Addr)
deriving DecidableEq

/-- `url::Url`, by its parts; a port that is the default of the scheme is left out. -/
structure Url where
  scheme : String
  host : Option Host
  port : Option ℕ
  path : String
  query : Option String
deriving DecidableEq

/-- What the downloader takes from the `url` crate. -/
structure UrlCrate where
  /-- `Url::parse`. -/
  parse : String → Option Url
  /-- An IPv6 address as it stands in a URL. -/
  ipv6Text : Ipv6Addr → String
  /-- The path that `set_path` leaves. -/
  encodePath : String → String
  /-- The query that `set_query` leaves. -/
  encodeQuery : String → String

/-- `host_str`. -/
def UrlCrate.hostStr (U : UrlCrate) (url : Url) : Option String :=
  url.host.map fun
    | .domain name => name
    | .ipv4 ip => ip.text
    | .ipv6 ip => "[" ++ U.ipv6Text ip ++ "]"

/-- `port_or_known_default`. -/
def Url.portOrKnownDefault (url : Url) : Option ℕ :=
  url.port.or (match url.scheme with
    | "http" | "ws" => some 80
    | "https" | "wss" => some 443
    | "ftp" => some 21
    | _ => none)

/-- `matches!(url.scheme(), "http" | "https")`. -/
def Url.isHttp (url : Url) : Bool := url.scheme = "http" ∨ url.scheme = "https"

/-- Scheme, host and port agree. -/
def UrlCrate.sameOrigin (U : UrlCrate) (url base : Url) : Bool :=
  url.scheme = base.scheme ∧ U.hostStr url = U.hostStr base
    ∧ url.portOrKnownDefault = base.portOrKnownDefault

/-- `host_allowed`. -/
def hostAllowed (url : Url) : Bool :=
  match url.host with
  | some (.ipv4 ip) => isGlobal (.v4 ip)
  | some (.ipv6 ip) => isGlobal (.v6 ip)
  | some (.domain _) => true
  | none => false

/-! ### Text -/

/-- `trim_start_matches`. -/
def trimStartMatches (c : Char) (s : String) : String := String.ofList (s.toList.dropWhile (· = c))

/-- `trim_end_matches`. -/
def trimEndMatches (c : Char) (s : String) : String :=
  String.ofList (s.toList.reverse.dropWhile (· = c)).reverse

/-- `strip_prefix`. -/
def stripPrefix (p s : String) : Option String :=
  if p.toList.isPrefixOf s.toList then some (String.ofList (s.toList.drop p.toList.length)) else none

/-- What stands before and after the first `sep`. -/
def splitOnceAt (sep : List Char) : List Char → Option (List Char × List Char)
  | [] => if sep.isEmpty then some ([], []) else none
  | c :: cs =>
    if sep.isPrefixOf (c :: cs) then some ([], (c :: cs).drop sep.length)
    else (splitOnceAt sep cs).map fun e => (c :: e.1, e.2)

/-- `split_once`. -/
def splitOnce (sep s : String) : Option (String × String) :=
  (splitOnceAt sep.toList s.toList).map fun e => (String.ofList e.1, String.ofList e.2)

/-- `to_ascii_lowercase`. -/
def toAsciiLowercase (s : String) : String := String.ofList (s.toList.map Char.toLower)

def isAsciiAlphanumeric (b : UInt8) : Bool :=
  (48 ≤ b ∧ b ≤ 57) ∨ (65 ≤ b ∧ b ≤ 90) ∨ (97 ≤ b ∧ b ≤ 122)

/-- `looks_like_cid`: base58 of 46 characters, or base32 of at least 50. -/
def looksLikeCid (s : String) : Bool :=
  let bytes := utf8 s
  let v0 := bytes.length = 46 ∧ (utf8 "Qm").isPrefixOf bytes
    ∧ bytes.all fun b => isAsciiAlphanumeric b ∧ b ≠ 48 ∧ b ≠ 79 ∧ b ≠ 73 ∧ b ≠ 108
  let v1 := 50 ≤ bytes.length ∧ (utf8 "b").isPrefixOf bytes
    ∧ bytes.all fun b => (97 ≤ b ∧ b ≤ 122) ∨ (50 ≤ b ∧ b ≤ 55)
  v0 ∨ v1

/-! ### The gateway -/

/-- `PUBLIC_GATEWAYS`. -/
def publicGateways : List String :=
  ["ipfs.io", "dweb.link", "cloudflare-ipfs.com", "cf-ipfs.com", "gateway.pinata.cloud", "nftstorage.link",
    "w3s.link", "4everland.io", "ipfs.infura.io", "infura-ipfs.io", "ipfs.filebase.io",
    "gateway.lighthouse.storage"]

structure Gateway where
  base : Url
  rewritePublic : Bool

namespace Gateway

variable (U : UrlCrate)

/-- `Gateway::new`. -/
def new (base : String) (rewritePublic : Bool) : Option Gateway :=
  match U.parse (trimEndMatches '/' base) with
  | some base => if base.isHttp ∧ (U.hostStr base).isSome then some { base, rewritePublic } else none
  | none => none

/-- `is_gateway`. -/
def isGateway (g : Gateway) (url : Url) : Bool := U.sameOrigin url g.base

/-- The content that a URL names, if the gateway is to serve it. -/
def content (g : Gateway) (url : Url) : Option String :=
  if url.scheme = "ipfs" then
    (U.hostStr url).map fun host =>
      let joined := host ++ url.path
      (stripPrefix "ipfs/" joined).getD joined
  else if url.isHttp ∧ g.rewritePublic ∧ ¬ g.isGateway U url then
    match (U.hostStr url).map toAsciiLowercase with
    | none => none
    | some host =>
      match splitOnce ".ipfs." host with
      | some (cid, gateway) => if gateway ∈ publicGateways then some (cid ++ url.path) else none
      | none => if host ∈ publicGateways then stripPrefix "/ipfs/" url.path else none
  else none

/-- `rewrite`. -/
def rewrite (g : Gateway) (url : Url) : Option Url :=
  match g.content U url with
  | none => none
  | some content =>
    let content := trimStartMatches '/' content
    let cid := String.ofList (content.toList.takeWhile (· ≠ '/'))
    if looksLikeCid cid then
      some { g.base with
        path := U.encodePath (trimEndMatches '/' g.base.path ++ "/ipfs/" ++ content)
        query := url.query.map U.encodeQuery }
    else none

end Gateway

/-! ### What is made of a URI -/

/-- The start of `process`, up to the host's permit. -/
inductive Route where
  | invalidUri
  | unsupported
  | blocked
  | fetch (url : Url) (viaGateway : Bool)

def route (U : UrlCrate) (g : Gateway) (uri : String) : Route :=
  match U.parse (stripNul (trim uri)) with
  | none => .invalidUri
  | some parsed =>
    let url := (g.rewrite U parsed).getD parsed
    let viaGateway := g.isGateway U url
    if ¬ url.isHttp then .unsupported
    else if ¬ viaGateway ∧ ¬ hostAllowed url then .blocked
    else .fetch url viaGateway

/-- **What is fetched** is on the gateway, or its host is not an internal address. -/
theorem of_route_eq_fetch {U : UrlCrate} {g : Gateway} {uri : String} {url : Url} {viaGateway : Bool}
    (h : route U g uri = .fetch url viaGateway) :
    viaGateway = g.isGateway U url ∧ url.isHttp = true ∧ (viaGateway = true ∨ hostAllowed url = true) := by
  unfold route at h
  split at h
  · exact absurd h (by simp)
  · dsimp only at h
    split at h
    · exact absurd h (by simp)
    · rename_i hhttp
      split at h
      · exact absurd h (by simp)
      · rename_i hallowed
        obtain ⟨hurl, hvia⟩ := Route.fetch.inj h
        rw [hurl] at hhttp hallowed hvia
        rw [hvia] at hallowed
        refine ⟨hvia.symm, not_not.mp hhttp, ?_⟩
        rcases not_and_or.mp hallowed with hgateway | hhost
        · exact Or.inl (not_not.mp hgateway)
        · exact Or.inr (not_not.mp hhost)

end DasIndexer.Grpc
