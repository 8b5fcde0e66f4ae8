import DasIndexer.Grpc.Guard

/-!
# The connections of a download

A download is made by one of two clients.  The public one resolves names through a resolver that drops every
address that is not global, and checks each redirect again; the trusted one talks to the configured gateway,
wherever that is, and follows redirects only within it.  `send` is a request with its redirects: what DNS
answers to each lookup and where each server redirects to is up to them.

**`connections_allowed`**: whatever they answer, every connection goes to the gateway through the trusted
client, or to a global address.
-/

namespace DasIndexer.Grpc

/-- What the downloader takes from the `url` and `serde_json` crates. -/
structure Crates extends UrlCrate where
  /-- `serde_json::from_slice`. -/
  fromSlice : Bytes → Except String Json

/-- `MetadataArgs`, as far as the downloader's steps depend on them. -/
structure MetadataArgs where
  metadataConcurrency : ℕ
  metadataQueue : ℕ
  metadataMaxBytes : ℕ
  metadataMaxAttempts : ℕ
  ipfsGateway : String
  ipfsRewritePublicGateways : Bool

/-- `Shared`, without the state that changes. -/
structure Shared where
  args : MetadataArgs
  gateway : Gateway
  /-- The URL that the trusted client compares a redirect with. -/
  trustedBase : Url
  maxWriteAttempts : ℕ

/-- The start of `spawn`: both the gateway and the trusted client are made from the configured URL. -/
def Shared.new (U : UrlCrate) (args : MetadataArgs) (maxWriteAttempts : ℕ) : Option Shared :=
  match Gateway.new U args.ipfsGateway args.ipfsRewritePublicGateways, U.parse args.ipfsGateway with
  | some gateway, some trustedBase => some { args, gateway, trustedBase, maxWriteAttempts }
  | _, _ => none

/-! ### Clients -/

inductive Client where
  | publicClient
  | trustedClient
deriving DecidableEq

def blocked : String := "resolves only to non-global addresses"

def tooManyRedirects : String := "too many redirects"

/-- What a redirect policy says to a redirect. -/
inductive Action where
  | follow
  | stop
  | error (message : String)

section Clients

variable (U : UrlCrate) (shared : Shared)

/-- The policies of `public_client` and `trusted_client`. -/
def Client.policy (client : Client) (previous : List Url) (url : Url) : Action :=
  match client with
  | .publicClient =>
    if 5 ≤ previous.length then .error tooManyRedirects
    else if ¬ url.isHttp ∨ ¬ hostAllowed url then .error blocked
    else .follow
  | .trustedClient =>
    if 5 ≤ previous.length then .error tooManyRedirects
    else if U.sameOrigin url shared.trustedBase then .follow
    else .stop

/-- `GlobalOnlyResolver::resolve`, on what `lookup_host` returned. -/
def globalOnly (host : String) (found : List IpAddr) : Except String (List IpAddr) :=
  let allowed := found.filter isGlobal
  if allowed.isEmpty then .error (host ++ " " ++ blocked) else .ok allowed

/-- The addresses to connect to; a literal address is not looked up. -/
def Client.addresses (client : Client) (lookup : String → Except String (List IpAddr)) (url : Url) :
    Except String (List IpAddr) :=
  match url.host with
  | some (.ipv4 ip) => .ok [.v4 ip]
  | some (.ipv6 ip) => .ok [.v6 ip]
  | some (.domain name) =>
    match lookup name, client with
    | .error e, _ => .error e
    | .ok found, .publicClient => globalOnly name found
    | .ok found, .trustedClient => .ok found
  | none => .error "no host"

/-! ### Requests -/

/-- `reqwest::Response`: the body comes in chunks, and may break off. -/
structure Response where
  status : ℕ
  retryAfter : Option ℕ
  contentLength : Option ℕ
  chunks : List Bytes
  brokenOff : Option String

/-- What comes of a request to a URL. -/
inductive Answer where
  | failed (error : String)
  | redirect (location : Url) (response : Response)
  | response (response : Response)

/-- What the outside does during a download: the answer to each lookup, and to each request. -/
structure Outside where
  lookup : ℕ → String → Except String (List IpAddr)
  answers : List Answer

/-- A connection that a client may make. -/
structure Connection where
  client : Client
  url : Url
  address : IpAddr
deriving DecidableEq

/-- `client.get(url).send()`: connect, and follow redirects as far as the policy allows. -/
def send (client : Client) (lookup : ℕ → String → Except String (List IpAddr)) :
    List Url → Url → List Answer → List Connection × Except String Response
  | previous, url, answers =>
    match client.addresses (lookup previous.length) url with
    | .error e => ([], .error e)
    | .ok found =>
      let made := found.map fun address => { client, url, address }
      match answers with
      | [] => (made, .error "operation timed out")
      | .failed e :: _ => (made, .error e)
      | .response r :: _ => (made, .ok r)
      | .redirect location r :: rest =>
        match client.policy U shared (previous ++ [url]) location with
        | .stop => (made, .ok r)
        | .error e => (made, .error e)
        | .follow =>
          let next := send client lookup (previous ++ [url]) location rest
          (made ++ next.1, next.2)

inductive Failure where
  | rateLimited (retryAfter : Option ℕ)
  | transient (reason : String)
  | permanent (reason : String)

/-- What a status other than 200 means. -/
def statusFailure (viaGateway : Bool) (r : Response) : Option Failure :=
  let http := "HTTP " ++ toString r.status
  if r.status = 200 then none
  else if r.status = 429 then some (.rateLimited r.retryAfter)
  else if r.status = 503 ∧ r.retryAfter.isSome then some (.rateLimited r.retryAfter)
  else if (r.status = 404 ∨ r.status = 410) ∧ viaGateway then some (.transient (http ++ " from gateway"))
  else if (300 ≤ r.status ∧ r.status ≤ 399) ∧ viaGateway then
    some (.transient (http ++ " redirect from gateway"))
  else if r.status = 408 ∨ r.status = 425 ∨ (500 ≤ r.status ∧ r.status ≤ 599) then some (.transient http)
  else some (.permanent http)

/-- The loop over the chunks of a body. -/
def readBody (maxBytes : ℕ) (brokenOff : Option String) : Bytes → List Bytes → Except Failure Bytes
  | body, chunk :: chunks =>
    if maxBytes < body.length + chunk.length then .error (.permanent "body exceeds size limit")
    else readBody maxBytes brokenOff (body ++ chunk) chunks
  | body, [] =>
    match brokenOff with
    | some e => .error (.transient e)
    | none => .ok body

/-- The document of a response. -/
def readResponse (fromSlice : Bytes → Except String Json) (maxBytes : ℕ) (viaGateway : Bool) (r : Response) :
    Except Failure Json :=
  match statusFailure viaGateway r with
  | some failure => .error failure
  | none =>
    if r.contentLength.any fun len => maxBytes < len then .error (.permanent "body exceeds size limit")
    else
      match readBody maxBytes r.brokenOff [] r.chunks with
      | .error failure => .error failure
      | .ok body =>
        match fromSlice body with
        | .ok json => .ok json
        | .error e => .error (.permanent ("not JSON: " ++ e))

end Clients

/-- `fetch`, with the connections it makes. -/
def fetch (C : Crates) (shared : Shared) (url : Url) (viaGateway : Bool) (out : Outside) :
    List Connection × Except Failure Json :=
  let client := if viaGateway then Client.trustedClient else Client.publicClient
  let sent := send C.toUrlCrate shared client out.lookup [] url out.answers
  (sent.1, match sent.2 with
    | .error chain =>
      if (splitOnce blocked chain).isSome ∨ (splitOnce tooManyRedirects chain).isSome then
        .error (.permanent chain)
      else .error (.transient chain)
    | .ok response => readResponse C.fromSlice shared.args.metadataMaxBytes viaGateway response)

/-- The connections that `process` makes for a URI. -/
def connections (C : Crates) (shared : Shared) (uri : String) (out : Outside) : List Connection :=
  match route C.toUrlCrate shared.gateway uri with
  | .fetch url viaGateway => (fetch C shared url viaGateway out).1
  | _ => []

/-! ### Where they go -/

/-- Slashes at the end of an `http` URL belong to its path, its query or its fragment. -/
def UrlCrate.TrailingSlashes (U : UrlCrate) : Prop :=
  ∀ s base base', U.parse (trimEndMatches '/' s) = some base → base.isHttp = true →
    U.parse s = some base' → U.sameOrigin base' base = true

/-- A connection that a download may make. -/
def Allowed (U : UrlCrate) (shared : Shared) (c : Connection) : Prop :=
  c.client = .trustedClient ∧ U.sameOrigin c.url shared.gateway.base = true ∨ isGlobal c.address = true

/-- A URL that a client may be sent to. -/
def Cleared (U : UrlCrate) (shared : Shared) : Client → Url → Prop
  | .publicClient, url => hostAllowed url = true
  | .trustedClient, url => U.sameOrigin url shared.gateway.base = true

theorem UrlCrate.sameOrigin_trans {U : UrlCrate} {a b c : Url} (hab : U.sameOrigin a b = true)
    (hbc : U.sameOrigin b c = true) : U.sameOrigin a c = true := by
  simp only [UrlCrate.sameOrigin, decide_eq_true_eq] at hab hbc ⊢
  exact ⟨hab.1.trans hbc.1, hab.2.1.trans hbc.2.1, hab.2.2.trans hbc.2.2⟩

/-- The trusted client compares with the gateway. -/
theorem sameOrigin_of_new {U : UrlCrate} (hslash : U.TrailingSlashes) {args : MetadataArgs} {attempts : ℕ}
    {shared : Shared} (h : Shared.new U args attempts = some shared) :
    U.sameOrigin shared.trustedBase shared.gateway.base = true := by
  unfold Shared.new at h
  split at h
  · rename_i gateway trustedBase hgateway htrusted
    obtain rfl := Option.some.inj h
    unfold Gateway.new at hgateway
    split at hgateway
    · rename_i base hbase
      split at hgateway
      · rename_i hhttp
        obtain rfl := Option.some.inj hgateway
        exact hslash _ _ _ hbase hhttp.1 htrusted
      · exact absurd hgateway (by simp)
    · exact absurd hgateway (by simp)
  · exact absurd h (by simp)

section Allowed

variable {U : UrlCrate} {shared : Shared}

/-- A name is resolved to global addresses only. -/
theorem isGlobal_of_globalOnly {host : String} {found allowed : List IpAddr}
    (h : globalOnly host found = .ok allowed) : ∀ ip ∈ allowed, isGlobal ip = true := by
  unfold globalOnly at h
  dsimp only at h
  split at h
  · exact absurd h (by simp)
  · obtain rfl := Except.ok.inj h
    intro ip hip
    exact (List.mem_filter.mp hip).2

/-- **One hop**: a client that is sent to a URL it may be sent to makes allowed connections. -/
theorem allowed_of_cleared {client : Client} {lookup : String → Except String (List IpAddr)} {url : Url}
    {found : List IpAddr} (hurl : Cleared U shared client url) (h : client.addresses lookup url = .ok found) :
    ∀ ip ∈ found, Allowed U shared { client, url, address := ip } := by
  intro ip hip
  cases client with
  | trustedClient => exact Or.inl ⟨rfl, hurl⟩
  | publicClient =>
    refine Or.inr ?_
    have hallowed : hostAllowed url = true := hurl
    unfold Client.addresses at h
    unfold hostAllowed at hallowed
    split at h
    · rename_i ip' hhost
      rw [hhost] at hallowed
      obtain rfl := Except.ok.inj h
      rw [List.mem_singleton.mp hip]
      exact hallowed
    · rename_i ip' hhost
      rw [hhost] at hallowed
      obtain rfl := Except.ok.inj h
      rw [List.mem_singleton.mp hip]
      exact hallowed
    · split at h
      · exact absurd h (by simp)
      · exact isGlobal_of_globalOnly h ip hip
      · rename_i hclient
        exact absurd hclient (by simp)
    · exact absurd h (by simp)

/-- A client is sent only to a URL it may be sent to. -/
theorem cleared_of_follow (hbase : U.sameOrigin shared.trustedBase shared.gateway.base = true)
    {client : Client} {previous : List Url} {url : Url}
    (h : client.policy U shared previous url = .follow) : Cleared U shared client url := by
  unfold Client.policy at h
  cases client with
  | publicClient =>
    dsimp only at h
    split at h
    · exact absurd h (by simp)
    · split at h
      · exact absurd h (by simp)
      · rename_i hallowed
        exact not_not.mp (not_or.mp hallowed).2
  | trustedClient =>
    dsimp only at h
    split at h
    · exact absurd h (by simp)
    · split at h
      · rename_i hsame
        exact UrlCrate.sameOrigin_trans hsame hbase
      · exact absurd h (by simp)

/-- A connection of a request is to the URL itself, or to one that a redirect led to. -/
theorem mem_send {client : Client} {lookup : ℕ → String → Except String (List IpAddr)} {previous : List Url}
    {url : Url} {answers : List Answer} {c : Connection}
    (h : c ∈ (send U shared client lookup previous url answers).1) :
    (∃ found, client.addresses (lookup previous.length) url = .ok found ∧
      ∃ ip ∈ found, c = { client, url, address := ip }) ∨
    ∃ location response rest, answers = .redirect location response :: rest ∧
      client.policy U shared (previous ++ [url]) location = .follow ∧
      c ∈ (send U shared client lookup (previous ++ [url]) location rest).1 := by
  unfold send at h
  cases haddresses : client.addresses (lookup previous.length) url with
  | error e =>
    rw [haddresses] at h
    exact absurd h (by simp)
  | ok found =>
    have hmade : c ∈ (found.map fun address => ({ client, url, address } : Connection)) →
        ∃ ip ∈ found, c = { client, url, address := ip } := by
      intro hc
      obtain ⟨ip, hip, rfl⟩ := List.mem_map.mp hc
      exact ⟨ip, hip, rfl⟩
    simp only [haddresses] at h
    split at h
    · exact Or.inl ⟨found, rfl, hmade h⟩
    · exact Or.inl ⟨found, rfl, hmade h⟩
    · exact Or.inl ⟨found, rfl, hmade h⟩
    · rename_i location response rest
      split at h
      · exact Or.inl ⟨found, rfl, hmade h⟩
      · exact Or.inl ⟨found, rfl, hmade h⟩
      · rename_i hfollow
        rcases List.mem_append.mp h with hc | hc
        · exact Or.inl ⟨found, rfl, hmade hc⟩
        · exact Or.inr ⟨location, response, rest, rfl, hfollow, hc⟩

/-- **A request with its redirects** makes allowed connections, if it starts at a URL it may go to. -/
theorem send_allowed (hbase : U.sameOrigin shared.trustedBase shared.gateway.base = true) (client : Client)
    (lookup : ℕ → String → Except String (List IpAddr)) (previous : List Url) (url : Url)
    (answers : List Answer) (hurl : Cleared U shared client url) :
    ∀ c ∈ (send U shared client lookup previous url answers).1, Allowed U shared c := by
  -- each redirect that is followed uses up an answer, and leads to a URL that is cleared again
  induction answers generalizing previous url with
  | nil =>
    intro c hc
    obtain ⟨found, haddresses, ip, hip, rfl⟩ | ⟨_, _, _, hanswers, _⟩ := mem_send hc
    · exact allowed_of_cleared hurl haddresses ip hip
    · exact absurd hanswers (by simp)
  | cons answer rest ih =>
    intro c hc
    obtain ⟨found, haddresses, ip, hip, rfl⟩ | ⟨location, response, rest', hanswers, hfollow, hc'⟩ :=
      mem_send hc
    · exact allowed_of_cleared hurl haddresses ip hip
    · obtain ⟨_, rfl⟩ := List.cons.inj hanswers
      exact ih _ location (cleared_of_follow hbase hfollow) c hc'

end Allowed

/-- **Downloads reach no internal address.**  For every URI, every answer to each lookup and every chain of
redirects, a connection goes to the gateway through the trusted client, or to a global address. -/
theorem connections_allowed (C : Crates) (hslash : C.toUrlCrate.TrailingSlashes) (args : MetadataArgs)
    (attempts : ℕ) (shared : Shared) (hshared : Shared.new C.toUrlCrate args attempts = some shared)
    (uri : String) (out : Outside) :
    ∀ c ∈ connections C shared uri out,
      c.client = .trustedClient ∧ C.sameOrigin c.url shared.gateway.base = true ∨
        isGlobal c.address = true := by
  intro c hc
  unfold connections at hc
  split at hc
  · rename_i url viaGateway hroute
    obtain ⟨hvia, _, hallowed⟩ := of_route_eq_fetch hroute
    refine send_allowed (sameOrigin_of_new hslash hshared) _ out.lookup [] url out.answers ?_ c hc
    cases hgateway : viaGateway with
    | true =>
      show C.sameOrigin url shared.gateway.base = true
      rw [hgateway] at hvia
      exact hvia.symm
    | false =>
      show hostAllowed url = true
      rw [hgateway] at hallowed
      exact hallowed.resolve_left (by simp)
  · exact absurd hc (by simp)

/-- A gateway on a private network, and a URL of an asset. -/
def sampleCrates : Crates where
  parse s :=
    if s = "http://10.1.2.3:8080" ∨ s = "http://10.1.2.3:8080/" then
      some ⟨"http", some (.ipv4 ⟨10, 1, 2, 3⟩), some 8080, "/", none⟩
    else if s = "https://example.com/1.json" then
      some ⟨"https", some (.domain "example.com"), none, "/1.json", none⟩
    else none
  ipv6Text _ := ""
  encodePath s := s
  encodeQuery s := s
  fromSlice _ := .ok .null

def sampleArgs : MetadataArgs :=
  { metadataConcurrency := 16, metadataQueue := 100000, metadataMaxBytes := 1048576, metadataMaxAttempts := 5,
    ipfsGateway := "http://10.1.2.3:8080/", ipfsRewritePublicGateways := false }

/-- The name has a loopback address among its own, and the server redirects to the gateway's address. -/
def sampleOutside : Outside where
  lookup _ _ := .ok [.v4 ⟨93, 184, 216, 34⟩, .v4 ⟨127, 0, 0, 1⟩]
  answers := [.redirect ⟨"http", some (.ipv4 ⟨10, 1, 2, 3⟩), some 8080, "/", none⟩
    ⟨302, none, none, [], none⟩]

theorem sampleCrates_trailingSlashes : sampleCrates.toUrlCrate.TrailingSlashes := by
  intro s base base' htrimmed _ hparsed
  have hcases : s = "http://10.1.2.3:8080" ∨ s = "http://10.1.2.3:8080/" ∨
      s = "https://example.com/1.json" := by
    by_contra hnot
    simp only [not_or] at hnot
    simp [sampleCrates, hnot] at hparsed
  rcases hcases with rfl | rfl | rfl
  all_goals
    obtain rfl := Option.some.inj htrimmed
    obtain rfl := Option.some.inj hparsed
    decide

/-- Only the global address of the name is connected to. -/
theorem rebinding_name_is_filtered :
    ∃ shared, Shared.new sampleCrates.toUrlCrate sampleArgs 5 = some shared ∧
      connections sampleCrates shared "https://example.com/1.json" sampleOutside
        = [⟨.publicClient, ⟨"https", some (.domain "example.com"), none, "/1.json", none⟩,
            .v4 ⟨93, 184, 216, 34⟩⟩] ∧
      ∀ c ∈ connections sampleCrates shared "https://example.com/1.json" sampleOutside,
        c.client = .trustedClient ∧ sampleCrates.sameOrigin c.url shared.gateway.base = true ∨
          isGlobal c.address = true :=
  ⟨_, rfl, by decide +kernel, connections_allowed sampleCrates sampleCrates_trailingSlashes sampleArgs 5 _ rfl
    "https://example.com/1.json" sampleOutside⟩

end DasIndexer.Grpc
