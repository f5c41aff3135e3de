import PgSynapse.Http.Guard

/-!
# Where the network tools send requests

`guard_url` looks at the URL the model passed, and only `http_get`, `http_post` and `http_head` call
it.  The URLs of redirects, and those of `load_url`, `fetch_feed` and `read_article`, are requested
as they stand.
-/

namespace PgSynapse

/-! ### The policy -/

/-- Whether a request to a host, at an address, is inside the policy. -/
def HttpConfig.permits (cfg : HttpConfig) (host : String) (ip : IpAddr) : Bool :=
  cfg.egressPermitted host && (cfg.hostAllowlisted host || !isBlockedIp ip)

/-- A request that stays inside the policy. -/
def Sent.Within (cfg : HttpConfig) (s : Sent) : Prop :=
  ∃ host, s.url.host = some host ∧ cfg.permits host.str s.ip = true

/-! ### Chains of redirects -/

/-- The targets of the redirects the servers answer with, up to the first other answer. -/
def redirects : List ServerAnswer → List Url
  | .redirect location :: rest => location :: redirects rest
  | _ => []

/-- The requests for a chain of URLs, up to the first that cannot be connected to. -/
def Network.reached (net : Network) : List Url → List Sent
  | [] => []
  | url :: rest =>
    match net.dial url with
    | .error _ => []
    | .ok ip => ⟨url, ip⟩ :: net.reached rest

/-- **The client** sends a request for the URL and one for each redirect it follows. -/
theorem Network.send_sent (net : Network) (hops : Nat) (answers : List ServerAnswer) (url : Url) :
    (net.send hops answers url).2 = net.reached (url :: (redirects answers).take hops) := by
  induction answers generalizing hops url with
  | nil =>
    unfold Network.send Network.reached
    cases net.dial url with
    | error e => rfl
    | ok ip => simp [redirects, Network.reached]
  | cons answer rest ih =>
    unfold Network.send Network.reached
    cases net.dial url with
    | error e => rfl
    | ok ip =>
      cases answer with
      | dropped reason => simp [redirects, Network.reached]
      | response r => simp [redirects, Network.reached]
      | redirect location =>
        cases hops with
        | zero => simp [Network.reached]
        | succ hops => simp only [redirects, List.take_succ_cons, ih hops location]

/-! ### What the guard lets through -/

theorem Network.dial_host {net : Network} {url : Url} {ip : IpAddr} (h : net.dial url = .ok ip) :
    ∃ host addrs, url.host = some host ∧ net.addresses host = .ok addrs ∧ ip ∈ addrs := by
  unfold Network.dial at h
  split at h
  · cases h
  split at h
  · cases h
  rename_i host hhost
  split at h
  · cases h
  rename_i addrs haddrs
  split at h
  · cases h
  rename_i ip' hconnect
  cases h
  exact ⟨host, addrs, hhost, haddrs, net.connect_mem _ _ hconnect⟩

/-- The three last checks of the guard: an allowlisted host, an address that is not blocked, or a
name none of whose addresses is. -/
theorem guardUrl_host {cfg : HttpConfig} {net : Network} {url tool : String}
    (h : guardUrl cfg net url tool = .ok ()) :
    ∃ parsed host, net.parseUrl url = .ok parsed ∧ parsed.host = some host ∧
      cfg.egressPermitted host.str = true ∧
      (cfg.hostAllowlisted host.str = true ∨
        (∃ ip, host = .ipv4 ip ∧ isBlockedIp (.v4 ip) = false) ∨
        (∃ name addrs, host = .domain name ∧ net.resolve name = .ok addrs ∧
          ∀ ip ∈ addrs, isBlockedIp ip = false)) := by
  -- the guard refuses in this order: the URL, its scheme, a missing host, the egress list
  unfold guardUrl at h
  split at h
  · cases h
  rename_i parsed hparsed
  split at h
  · cases h
  split at h
  · cases h
  rename_i host hhost
  split at h
  · cases h
  rename_i hegress
  refine ⟨parsed, host, hparsed, hhost, by simpa using hegress, ?_⟩
  split at h
  · rename_i hallow
    exact .inl hallow
  refine .inr ?_
  cases host with
  | ipv4 ip =>
    simp only [UrlHost.parseIp] at h
    split at h
    · cases h
    · rename_i hblocked
      exact .inl ⟨ip, rfl, by simpa using hblocked⟩
  | ipv6 ip =>
    -- the brackets neither parse nor resolve
    simp only [UrlHost.parseIp, Network.lookupHost] at h
    cases h
  | domain name =>
    simp only [UrlHost.parseIp, Network.lookupHost] at h
    split at h
    · cases h
    rename_i addrs haddrs
    split at h
    · cases h
    rename_i hfind
    refine .inr ⟨name, addrs, rfl, haddrs, fun ip hip => ?_⟩
    simpa using List.find?_eq_none.mp hfind ip hip

/-- **The guard is sound**: a request for a URL it lets through stays inside the policy. -/
theorem guardUrl_within {cfg : HttpConfig} {net : Network} {url tool : String} {parsed : Url}
    {ip : IpAddr} (h : guardUrl cfg net url tool = .ok ()) (hparsed : net.parseUrl url = .ok parsed)
    (hdial : net.dial parsed = .ok ip) : (⟨parsed, ip⟩ : Sent).Within cfg := by
  obtain ⟨parsed', host, hparsed', hhost, hegress, hcase⟩ := guardUrl_host h
  obtain rfl : parsed' = parsed := by simpa [hparsed'] using hparsed
  obtain ⟨host', addrs, hhost', haddrs, hip⟩ := Network.dial_host hdial
  obtain rfl : host = host' := by simpa [hhost] using hhost'
  refine ⟨host, hhost, ?_⟩
  rw [HttpConfig.permits, hegress, Bool.true_and, Bool.or_eq_true, Bool.not_eq_true']
  rcases hcase with hallow | ⟨ip', rfl, hblocked⟩ | ⟨name, addrs', rfl, hresolve, hblocked⟩
  · exact .inl hallow
  · simp only [Network.addresses, Except.ok.injEq] at haddrs
    subst haddrs
    rw [List.mem_singleton] at hip
    exact .inr (hip ▸ hblocked)
  · simp only [Network.addresses, hresolve, Except.ok.injEq] at haddrs
    subst haddrs
    exact .inr (hblocked ip hip)

/-! ### The six tools -/

/-- A call of one of the network tools. -/
inductive NetCall where
  | httpGet (args : HttpArgs)
  | httpPost (args : HttpArgs)
  | httpHead (args : HttpArgs)
  | loadUrl (args : LoadUrlArgs)
  | fetchFeed (args : FetchFeedArgs)
  | readArticle (args : ReadArticleArgs)
  deriving DecidableEq, Repr

section Calls

variable (cfg : HttpConfig) (net : Network) (parsers : Parsers) (reason : Nat → String)
  (answers : List ServerAnswer)

/-- The requests a call sends. -/
def NetCall.sent : NetCall → List Sent
  | .httpGet args => (HttpGet.run cfg net args answers).2
  | .httpPost args => (HttpPost.run cfg net args answers).2
  | .httpHead args => (HttpHead.run cfg net args answers).2
  | .loadUrl args => (LoadUrlTool.records net parsers args answers).2
  | .fetchFeed args => (FetchFeedTool.run net parsers args answers).2
  | .readArticle args => (ReadArticleTool.run net parsers reason args answers).2

/-- A call of a guarded tool that gets as far as its client: the URL is let through, the headers are
well formed and the host of the URL can be connected to. -/
def HttpArgs.goesOut (name : String) (args : HttpArgs) : Bool :=
  match guardUrl cfg net args.url name, net.parseUrl args.url with
  | .ok (), .ok url =>
    args.headers.all (fun (k, v) => net.headerValid k v) && (net.dial url).isOk
  | _, _ => false

/-- The URLs a call may request without a guard: the targets of the redirects, and for the last three
tools the URL itself where their own checks let it through. -/
def NetCall.unguarded : NetCall → List Url
  | .httpGet args => if args.goesOut cfg net "http_get" then (redirects answers).take maxRedirects
      else []
  | .httpPost args => if args.goesOut cfg net "http_post" then (redirects answers).take maxRedirects
      else []
  | .httpHead args => if args.goesOut cfg net "http_head" then (redirects answers).take maxRedirects
      else []
  | .loadUrl args =>
    match parseHttpUrl net "load_url" args.url with
    | .error _ => []
    | .ok url => url :: (redirects answers).take maxRedirects
  | .fetchFeed args =>
    match parseHttpUrl net "fetch_feed" args.url with
    | .error _ => []
    | .ok url => url :: (redirects answers).take maxRedirects
  | .readArticle args =>
    match net.parseUrl args.url with
    | .error _ => []
    | .ok url =>
      if url.host.map UrlHost.str = some "news.google.com" then []
      else url :: (redirects answers).take maxRedirects

variable {net answers}

/-- The three guarded tools. -/
theorem httpTool_within_iff (name : String) (output : Response → Except String ToolOutput)
    (args : HttpArgs) :
    (∀ s ∈ (httpTool name output cfg net args answers).2, s.Within cfg) ↔
      ∀ s ∈ net.reached (if args.goesOut cfg net name then (redirects answers).take maxRedirects
        else []), s.Within cfg := by
  unfold httpTool HttpArgs.goesOut
  cases hguard : guardUrl cfg net args.url name with
  | error e => simp [Network.reached]
  | ok _ =>
    cases hparse : net.parseUrl args.url with
    | error e => simp [Network.reached]
    | ok url =>
      dsimp only
      cases hheaders : args.headers.find? fun (k, v) => !net.headerValid k v with
      | some kv =>
        obtain ⟨k, v⟩ := kv
        have hbad : args.headers.all (fun (k, v) => net.headerValid k v) = false := by
          have hmem := List.mem_of_find?_eq_some hheaders
          have hinv := List.find?_some hheaders
          exact List.all_eq_false.mpr ⟨(k, v), hmem, by simpa using hinv⟩
        simp [hbad, Network.reached]
      | none =>
        have hgood : args.headers.all (fun (k, v) => net.headerValid k v) = true := by
          rw [List.all_eq_true]
          intro kv hkv
          simpa using List.find?_eq_none.mp hheaders kv hkv
        dsimp only
        rw [Network.send_sent, Network.reached]
        simp only [hgood, Bool.true_and]
        cases hdial : net.dial url with
        | error e => simp [Except.isOk, Except.toBool, Network.reached]
        | ok ip =>
          have hfirst := guardUrl_within hguard hparse hdial
          simp only [Except.isOk, Except.toBool, if_true, List.forall_mem_cons, hfirst, true_and]

/-- The request of the three other tools. -/
theorem fetchText_sent (name : String) (refused : Nat → String) (unreadable : String → String)
    (url : Url) : (fetchText net name refused unreadable url answers).2 =
      net.reached (url :: (redirects answers).take maxRedirects) := by
  rw [← Network.send_sent]
  rfl

/-- **Outbound requests**: a call of a network tool stays inside the policy exactly when every URL it
may request without a guard is, as far as the chain of redirects is followed. -/
theorem requests_within_iff (call : NetCall) :
    (∀ s ∈ call.sent cfg net parsers reason answers, s.Within cfg) ↔
      ∀ s ∈ net.reached (call.unguarded cfg net answers), s.Within cfg := by
  cases call with
  | httpGet args => exact httpTool_within_iff cfg "http_get" bodyOutput args
  | httpPost args => exact httpTool_within_iff cfg "http_post" bodyOutput args
  | httpHead args => exact httpTool_within_iff cfg "http_head" headersOutput args
  | loadUrl args =>
    simp only [NetCall.sent, NetCall.unguarded, LoadUrlTool.records]
    cases parseHttpUrl net "load_url" args.url with
    | error e => simp [Network.reached]
    | ok url => simp only [fetchText_sent]
  | fetchFeed args =>
    simp only [NetCall.sent, NetCall.unguarded, FetchFeedTool.run]
    cases parseHttpUrl net "fetch_feed" args.url with
    | error e => simp [Network.reached]
    | ok url => simp only [fetchText_sent]
  | readArticle args =>
    simp only [NetCall.sent, NetCall.unguarded, ReadArticleTool.run]
    cases net.parseUrl args.url with
    | error e => simp [Network.reached]
    | ok url =>
      dsimp only
      split
      · simp [Network.reached]
      · simp only [fetchText_sent]

end Calls

/-! ### The metadata endpoint -/

/-- The cloud metadata endpoint. -/
def metadataUrl : Url := ⟨"http", some (.ipv4 ⟨169, 254, 169, 254⟩)⟩

/-- A public page. -/
def publicUrl : Url := ⟨"https", some (.domain "example.com")⟩

/-- A network in which both answer. -/
def demoNetwork : Network where
  parseUrl s :=
    if s = "http://169.254.169.254/latest/meta-data/" then .ok metadataUrl
    else if s = "https://example.com/" then .ok publicUrl
    else .error "relative URL without a base"
  headerValid _ _ := true
  resolve name :=
    if name = "example.com" then .ok [.v4 ⟨93, 184, 216, 34⟩] else .error "Name or service not known"
  connect addrs := addrs.head?
  connect_mem _ _ h := List.mem_of_head? h
  sendErrorText _ := "error sending request"

/-- Parsers that take every text. -/
def demoParsers : Parsers where
  json _ := .ok (.array [])
  rss _ _ := .ok []
  atom _ _ := .ok []
  article _ _ _ := .ok .null

/-- With nothing configured, `load_url` reads the metadata endpoint, and so does `http_get` when a
public page redirects there. -/
theorem metadata_endpoint_reached :
    ¬ (∀ s ∈ NetCall.sent ⟨none, [], none⟩ demoNetwork demoParsers toString
        [.response ⟨200, [], .ok "[]"⟩] (.loadUrl ⟨"http://169.254.169.254/latest/meta-data/", none⟩),
        s.Within ⟨none, [], none⟩) ∧
    ¬ (∀ s ∈ NetCall.sent ⟨none, [], none⟩ demoNetwork demoParsers toString
        [.redirect metadataUrl, .response ⟨200, [], .ok "[]"⟩]
        (.httpGet ⟨"https://example.com/", []⟩), s.Within ⟨none, [], none⟩) := by
  have hblocked : ¬ (⟨metadataUrl, .v4 ⟨169, 254, 169, 254⟩⟩ : Sent).Within ⟨none, [], none⟩ := by
    rintro ⟨host, hhost, hpermits⟩
    obtain rfl : UrlHost.ipv4 ⟨169, 254, 169, 254⟩ = host := Option.some.inj hhost
    exact absurd hpermits (by decide)
  constructor
  · intro h
    exact hblocked (h _ (by decide))
  · intro h
    exact hblocked (h _ (by decide))

end PgSynapse
