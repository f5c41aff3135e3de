import PgSynapse.Std.Text
import PgSynapse.Types.Message

/-!
# The network tools and the URL guard

`guard_url` with its two allowlists (`pg-synapse-tools-http`) and the six tools that fetch a URL the
model chose: `http_get`, `http_post` and `http_head`, `load_url` (`pg-synapse-tools-loadfile`) up to
the records it stages, `fetch_feed` (`pg-synapse-tools-newssearch`) and `read_article`
(`pg-synapse-tools-readarticle`).  URL parsing, name resolution, connections and the answers of the
servers are given.
-/

namespace PgSynapse

/-! ### Addresses -/

/-- `std::net::Ipv4Addr`. -/
structure Ipv4Addr where
  a : UInt8
  b : UInt8
  c : UInt8
  d : UInt8
  deriving DecidableEq, Repr

namespace Ipv4Addr

/-- `Ipv4Addr::is_private`: `10.0.0.0/8`, `172.16.0.0/12` and `192.168.0.0/16`. -/
def isPrivate (ip : Ipv4Addr) : Bool :=
  ip.a == 10 || (ip.a == 172 && 16 ≤ ip.b && ip.b ≤ 31) || (ip.a == 192 && ip.b == 168)

/-- `Ipv4Addr::is_loopback`. -/
def isLoopback (ip : Ipv4Addr) : Bool := ip.a == 127

/-- `Ipv4Addr::is_link_local`. -/
def isLinkLocal (ip : Ipv4Addr) : Bool := ip.a == 169 && ip.b == 254

/-- `Ipv4Addr::is_unspecified`. -/
def isUnspecified (ip : Ipv4Addr) : Bool := ip == ⟨0, 0, 0, 0⟩

/-- `Ipv4Addr::is_broadcast`. -/
def isBroadcast (ip : Ipv4Addr) : Bool := ip == ⟨255, 255, 255, 255⟩

/-- `Ipv4Addr::is_documentation`. -/
def isDocumentation (ip : Ipv4Addr) : Bool :=
  (ip.a == 192 && ip.b == 0 && ip.c == 2) || (ip.a == 198 && ip.b == 51 && ip.c == 100) ||
    (ip.a == 203 && ip.b == 0 && ip.c == 113)

/-- The dotted form. -/
def text (ip : Ipv4Addr) : String :=
  ".".intercalate ([ip.a, ip.b, ip.c, ip.d].map fun n => toString n.toNat)

end Ipv4Addr

/-- `std::net::Ipv6Addr`, as its segments. -/
structure Ipv6Addr where
  segments : Vector UInt16 8
  deriving DecidableEq, Repr

namespace Ipv6Addr

/-- `Ipv6Addr::to_ipv4_mapped`: the address of `::ffff:a.b.c.d`. -/
def toIpv4Mapped (ip : Ipv6Addr) : Option Ipv4Addr :=
  match ip.segments.toList with
  | [0, 0, 0, 0, 0, 0xffff, ab, cd] =>
    some ⟨(ab >>> 8).toUInt8, ab.toUInt8, (cd >>> 8).toUInt8, cd.toUInt8⟩
  | _ => none

/-- `Ipv6Addr::is_loopback`. -/
def isLoopback (ip : Ipv6Addr) : Bool := ip.segments.toList == [0, 0, 0, 0, 0, 0, 0, 1]

/-- `Ipv6Addr::is_unspecified`. -/
def isUnspecified (ip : Ipv6Addr) : Bool := ip.segments.toList == [0, 0, 0, 0, 0, 0, 0, 0]

/-- The first of the longest runs of zero segments, as its place and length. -/
def zeroRun (segments : List UInt16) : Nat × Nat :=
  (List.range segments.length).foldl (fun best i =>
    let len := ((segments.drop i).takeWhile (· == 0)).length
    if len > best.2 then (i, len) else best) (0, 0)

/-- The compressed form: a run of two or more zero segments is written `::`. -/
def text (ip : Ipv6Addr) : String :=
  let hex (segments : List UInt16) : String :=
    ":".intercalate (segments.map fun n => String.ofList (Nat.toDigits 16 n.toNat))
  let segments := ip.segments.toList
  let (start, len) := zeroRun segments
  if len < 2 then hex segments
  else hex (segments.take start) ++ "::" ++ hex (segments.drop (start + len))

end Ipv6Addr

/-- `std::net::IpAddr`. -/
inductive IpAddr where
  | v4 (ip : Ipv4Addr)
  | v6 (ip : Ipv6Addr)
  deriving DecidableEq, Repr

/-- The `Display` form. -/
def IpAddr.text : IpAddr → String
  | .v4 ip => ip.text
  | .v6 ip => ip.text

/-- `is_blocked_ip` on an IPv4 address. -/
def isBlockedIpv4 (ip : Ipv4Addr) : Bool :=
  ip.isPrivate || ip.isLoopback || ip.isLinkLocal || ip.isUnspecified || ip.isBroadcast ||
    ip.isDocumentation

/-- `is_blocked_ip`. -/
def isBlockedIp : IpAddr → Bool
  | .v4 ip => isBlockedIpv4 ip
  | .v6 ip =>
    match ip.toIpv4Mapped with
    | some mapped => isBlockedIpv4 mapped
    | none =>
      -- `fc00::/7`, unique local, and `fe80::/10`, link local
      let first := ip.segments[0]
      ip.isLoopback || ip.isUnspecified || (first &&& 0xfe00) == 0xfc00 ||
        (first &&& 0xffc0) == 0xfe80

/-! ### URLs -/

/-- `url::Host`. -/
inductive UrlHost where
  | domain (name : String)
  | ipv4 (ip : Ipv4Addr)
  | ipv6 (ip : Ipv6Addr)
  deriving DecidableEq, Repr

namespace UrlHost

/-- `Url::host_str`: an IPv6 address stands in brackets. -/
def str : UrlHost → String
  | .domain name => name
  | .ipv4 ip => ip.text
  | .ipv6 ip => "[" ++ ip.text ++ "]"

/-- `host.parse::<IpAddr>()` on `host_str`.  The brackets of an IPv6 address do not parse, and the
host of an `http` URL is not a domain when it reads as an IPv4 address. -/
def parseIp : UrlHost → Option IpAddr
  | .ipv4 ip => some (.v4 ip)
  | _ => none

end UrlHost

/-- The parts of a `url::Url` that the tools and the client look at. -/
structure Url where
  scheme : String
  host : Option UrlHost
  deriving DecidableEq, Repr

/-- `matches!(url.scheme(), "http" | "https")`. -/
def Url.isHttp (url : Url) : Bool := url.scheme == "http" || url.scheme == "https"

/-! ### The allowlists -/

/-- The configuration of the guard: the two environment variables, and the hosts added with
`allow_host`. -/
structure HttpConfig where
  httpAllow : Option String
  allowed : List String
  egressAllow : Option String
  deriving DecidableEq, Repr

namespace HttpConfig

/-- `allowlist`. -/
def allowlist (cfg : HttpConfig) : List String :=
  (match cfg.httpAllow with
    | some v => ((Text.splitChar ',' v).map Text.trim).filter fun h => !h.isEmpty
    | none => []) ++ cfg.allowed

/-- `host_allowlisted`. -/
def hostAllowlisted (cfg : HttpConfig) (host : String) : Bool := cfg.allowlist.contains host

/-- `egress_allowlist`: unset means unrestricted, an empty value permits nothing. -/
def egressAllowlist (cfg : HttpConfig) : Option (List String) :=
  cfg.egressAllow.map fun raw =>
    ((Text.splitChar ',' raw).map fun h => Text.toAsciiLowercase (Text.trim h)).filter
      fun h => !h.isEmpty

/-- Whether an entry of the egress list names a host: `.domain` names it and its subdomains. -/
def entryMatches (host entry : String) : Bool :=
  match entry.toList with
  | '.' :: domain => host == String.ofList domain || Text.endsWith host entry
  | _ => host == entry

/-- `egress_permitted`. -/
def egressPermitted (cfg : HttpConfig) (host : String) : Bool :=
  match cfg.egressAllowlist with
  | none => true
  | some allowed => allowed.any (entryMatches (Text.toAsciiLowercase host))

end HttpConfig

/-! ### The network -/

/-- A response.  `headers` are those whose value is text; reading the body may fail. -/
structure Response where
  status : Nat
  headers : List (String × String)
  body : Except String String
  deriving DecidableEq, Repr

/-- `StatusCode::is_success`. -/
def Response.isSuccess (r : Response) : Bool := 200 ≤ r.status && r.status < 300

/-- What a server answers to a request. -/
inductive ServerAnswer where
  | redirect (location : Url)
  | response (r : Response)
  | dropped (reason : String)
  deriving DecidableEq, Repr

/-- How a request fails in the client. -/
inductive SendError where
  | builder (reason : String)
  | badScheme
  | dns (reason : String)
  | connect
  | transport (reason : String)
  | tooManyRedirects
  deriving DecidableEq, Repr

/-- The libraries and the outside as the tools see them.  Name resolution gives the same answer when
the guard asks and when the client does; a connection goes to one of the addresses found. -/
structure Network where
  parseUrl : String → Except String Url
  headerValid : String → String → Bool
  resolve : String → Except String (List IpAddr)
  connect : List IpAddr → Option IpAddr
  connect_mem : ∀ addrs ip, connect addrs = some ip → ip ∈ addrs
  sendErrorText : SendError → String

namespace Network

/-- `tokio::net::lookup_host` on `host_str`.  A bracketed address is not a name. -/
def lookupHost (net : Network) : UrlHost → Except String (List IpAddr)
  | .domain name => net.resolve name
  | .ipv4 ip => .ok [.v4 ip]
  | .ipv6 _ => .error "failed to lookup address information: Name or service not known"

/-- The addresses the client tries: an address literal is used as it stands. -/
def addresses (net : Network) : UrlHost → Except String (List IpAddr)
  | .domain name => net.resolve name
  | .ipv4 ip => .ok [.v4 ip]
  | .ipv6 ip => .ok [.v6 ip]

/-- The connection the client opens for a URL. -/
def dial (net : Network) (url : Url) : Except SendError IpAddr :=
  if !url.isHttp then .error .badScheme
  else match url.host with
    | none => .error .badScheme
    | some host =>
      match net.addresses host with
      | .error e => .error (.dns e)
      | .ok addrs =>
        match net.connect addrs with
        | none => .error .connect
        | some ip => .ok ip

end Network

/-- A request that was sent: its URL, and the address it went to. -/
structure Sent where
  url : Url
  ip : IpAddr
  deriving DecidableEq, Repr

/-- The client's default policy follows a chain of this many redirects. -/
def maxRedirects : Nat := 10

/-- `Client::execute`: a request and the redirects that follow it, with every request sent.
`answers` are what the servers answer to these requests, in order. -/
def Network.send (net : Network) (hops : Nat) (answers : List ServerAnswer) (url : Url) :
    Except SendError Response × List Sent :=
  match net.dial url with
  | .error e => (.error e, [])
  | .ok ip =>
    match answers with
    -- nobody answers: the client gives up
    | [] => (.error (.transport "operation timed out"), [⟨url, ip⟩])
    | .dropped reason :: _ => (.error (.transport reason), [⟨url, ip⟩])
    | .response r :: _ => (.ok r, [⟨url, ip⟩])
    | .redirect location :: rest =>
      match hops with
      | 0 => (.error .tooManyRedirects, [⟨url, ip⟩])
      | hops + 1 =>
        -- the client follows the redirect by itself, so the guard does not see where it leads
        let (r, sent) := net.send hops rest location
        (r, ⟨url, ip⟩ :: sent)

/-! ### The guard -/

/-- `guard_url`. -/
def guardUrl (cfg : HttpConfig) (net : Network) (url tool : String) : Except ToolError Unit :=
  match net.parseUrl url with
  | .error e => .error (.execution tool ("invalid url: " ++ e))
  | .ok parsed =>
    if !parsed.isHttp then .error (.execution tool ("scheme '" ++ parsed.scheme ++ "' not allowed"))
    else match parsed.host with
      | none => .error (.execution tool "url has no host")
      | some host =>
        if !cfg.egressPermitted host.str then
          .error (.execution tool ("egress to '" ++ host.str ++
            "' is not permitted; PG_SYNAPSE_HTTP_EGRESS_ALLOW does not list it"))
        -- an allowlisted host is not looked up, and may be internal
        else if cfg.hostAllowlisted host.str then .ok ()
        else match host.parseIp with
          | some ip =>
            if isBlockedIp ip then
              .error (.execution tool ("request to internal address " ++ ip.text ++ " is blocked"))
            else .ok ()
          | none =>
            match net.lookupHost host with
            | .error e => .error (.execution tool ("dns resolution failed: " ++ e))
            | .ok addrs =>
              match addrs.find? isBlockedIp with
              | some ip => .error (.execution tool ("host '" ++ host.str ++
                  "' resolves to internal address " ++ ip.text ++ "; blocked"))
              | none => .ok ()

/-! ### `http_get`, `http_post`, `http_head` -/

/-- The arguments of the three tools.  The body `http_post` sends is left out. -/
structure HttpArgs where
  url : String
  headers : List (String × String)
  deriving DecidableEq, Repr

/-- A request of one of the three tools, from the guard to the output. -/
def httpTool (name : String) (output : Response → Except String ToolOutput) (cfg : HttpConfig)
    (net : Network) (args : HttpArgs) (answers : List ServerAnswer) :
    Except ToolError ToolOutput × List Sent :=
  match guardUrl cfg net args.url name with
  | .error e => (.error e, [])
  | .ok () =>
    match net.parseUrl args.url with
    | .error e => (.error (.execution name (net.sendErrorText (.builder e))), [])
    | .ok url =>
      match args.headers.find? fun (k, v) => !net.headerValid k v with
      | some (k, _) => (.error (.execution name (net.sendErrorText (.builder k))), [])
      | none =>
        let (r, sent) := net.send maxRedirects answers url
        (match r with
          | .error e => .error (.execution name (net.sendErrorText e))
          | .ok r => (output r).mapError (.execution name), sent)

/-- The output of `http_get` and `http_post`: `{ "status", "body" }`. -/
def bodyOutput (r : Response) : Except String ToolOutput :=
  r.body.map fun body => .json (.obj [("status", .nat r.status), ("body", .string body)])

/-- The output of `http_head`: `{ "status", "headers" }`, the headers in key order. -/
def headersOutput (r : Response) : Except String ToolOutput :=
  .ok (.json (.obj [("status", .nat r.status),
    ("headers", .obj (r.headers.map fun (k, v) => (k, .string v)))]))

/-- `HttpGet::run`. -/
def HttpGet.run := httpTool "http_get" bodyOutput

/-- `HttpPost::run`. -/
def HttpPost.run := httpTool "http_post" bodyOutput

/-- `HttpHead::run`. -/
def HttpHead.run := httpTool "http_head" headersOutput

/-! ### `load_url`, `fetch_feed`, `read_article` -/

/-- The parsers of the fetched texts. -/
structure Parsers where
  json : String → Except String Value
  rss : String → Nat → Except ToolError (List Value)
  atom : String → Nat → Except ToolError (List Value)
  article : String → Url → Nat → Except ToolError Value

/-- `reqwest::Url::parse(raw.trim())` and the scheme check of `load_url` and `fetch_feed`. -/
def parseHttpUrl (net : Network) (name raw : String) : Except ToolError Url :=
  match net.parseUrl (Text.trim raw) with
  | .error e => .error (.invalidInput name ("not a URL: " ++ e))
  | .ok url =>
    if !url.isHttp then
      .error (.invalidInput name ("scheme '" ++ url.scheme ++ "' is not allowed"))
    else .ok url

/-- The request of the three tools, with their errors: `refused` is the text for a status that is
no success, `unreadable` the one for a body that could not be read. -/
def fetchText (net : Network) (name : String) (refused : Nat → String)
    (unreadable : String → String) (url : Url) (answers : List ServerAnswer) :
    Except ToolError String × List Sent :=
  let (r, sent) := net.send maxRedirects answers url
  (match r with
    | .error e => .error (.execution name ("request failed: " ++ net.sendErrorText e))
    | .ok r =>
      if !r.isSuccess then .error (.execution name (refused r.status))
      else r.body.mapError fun e => .execution name (unreadable e), sent)

/-- The arguments of `load_url` its fetch reads. -/
structure LoadUrlArgs where
  url : String
  path : Option String
  deriving DecidableEq, Repr

/-- `extract_array`. -/
def extractArray (body : Value) (path : Option String) : Except ToolError (List Value) :=
  let err (reason : String) : ToolError := .execution "load_url" reason
  match path with
  | some key =>
    match body.get? key with
    | none => .error (err ("the response has no key \"" ++ key ++ "\""))
    | some target =>
      match target.asArray? with
      | none => .error (err ("\"" ++ key ++ "\" is not an array"))
      | some items => .ok items
  | none =>
    match body.asArray? with
    | none => .error (err
        "the response is not an array; pass `path` naming the key that holds it")
    | some items => .ok items

/-- The objects among the items. -/
def objectFields (items : List Value) : List (List (String × Value)) :=
  items.filterMap fun
    | .object fields => some fields
    | _ => none

/-- `LoadUrlTool::run` up to the records it stages. -/
def LoadUrlTool.records (net : Network) (parsers : Parsers) (args : LoadUrlArgs)
    (answers : List ServerAnswer) :
    Except ToolError (List (List (String × Value))) × List Sent :=
  -- only the scheme is checked: `guard_url` belongs to the three tools above
  match parseHttpUrl net "load_url" args.url with
  | .error e => (.error e, [])
  | .ok url =>
    let (text, sent) := fetchText net "load_url"
      (fun status => "the endpoint returned HTTP " ++ toString status)
      (fun e => "the response was not JSON: " ++ e) url answers
    (do
      let text ← text
      let body ← (parsers.json text).mapError fun e =>
        .execution "load_url" ("the response was not JSON: " ++ e)
      let items ← extractArray body args.path
      let records := objectFields items
      if records.isEmpty then .error (.execution "load_url" "found no JSON objects to load")
      else .ok records, sent)

/-- `FetchFeedArgs`. -/
structure FetchFeedArgs where
  url : String
  limit : Nat
  deriving DecidableEq, Repr

/-- `FetchFeedTool::run`. -/
def FetchFeedTool.run (net : Network) (parsers : Parsers) (args : FetchFeedArgs)
    (answers : List ServerAnswer) : Except ToolError ToolOutput × List Sent :=
  let limit := max 1 (min args.limit 100)
  -- as in `load_url`, only the scheme is checked
  match parseHttpUrl net "fetch_feed" args.url with
  | .error e => (.error e, [])
  | .ok url =>
    let (text, sent) := fetchText net "fetch_feed"
      (fun status => "feed returned HTTP " ++ toString status)
      (fun e => "could not read response: " ++ e) url answers
    (do
      let body ← text
      match parsers.rss body limit with
      | .ok items => .ok (.json (.array items))
      -- a text that is no RSS is read as Atom
      | .error _ => do
        let items ← parsers.atom body limit
        .ok (.json (.array items)), sent)

/-- `ReadArticleArgs`. -/
structure ReadArticleArgs where
  url : String
  maxChars : Nat
  deriving DecidableEq, Repr

/-- The refusal of `news.google.com` links. -/
def googleNewsReason : String :=
  "news.google.com links (e.g. from search_news) redirect to the article via JavaScript, which " ++
    "this tool cannot execute; use the article's own publisher URL instead, not the " ++
    "news.google.com one"

/-- `ReadArticleTool::run`.  `reason` is the text of a status code. -/
def ReadArticleTool.run (net : Network) (parsers : Parsers) (reason : Nat → String)
    (args : ReadArticleArgs) (answers : List ServerAnswer) :
    Except ToolError ToolOutput × List Sent :=
  let maxChars := max 500 (min args.maxChars 100000)
  match net.parseUrl args.url with
  | .error e => (.error (.invalidInput "read_article" ("not a valid URL: " ++ e)), [])
  | .ok url =>
    -- the one host that is refused; not even the scheme is looked at
    if url.host.map UrlHost.str = some "news.google.com" then
      (.error (.invalidInput "read_article" googleNewsReason), [])
    else
      let (text, sent) := fetchText net "read_article"
        (fun status => "server returned " ++ reason status)
        (fun e => "could not read response: " ++ e) url answers
      (do
        let body ← text
        let result ← parsers.article body url maxChars
        .ok (.json result), sent)

end PgSynapse
