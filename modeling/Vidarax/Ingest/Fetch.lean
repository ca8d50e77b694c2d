import Vidarax.Base.Result
import Vidarax.Ingest.Address

/-!
# Fetching remote media

Package `vidarax-core`, `crates/vidarax-core/src/ingest/validate.rs:110–144,180–184,220–253` and
`fetch.rs:20–24,129–142,192–271`. A URL is validated to the addresses that its host resolves to,
and each request is pinned to the addresses of its own URL. Parsing and joining of URLs, name
resolution, the environment, the clock and the servers are inputs. What is done with the body of
the last response opens no connection and is left out.
-/

namespace Vidarax.Ingest

open Vidarax.Base

/-- What the code reads of a parsed URL. -/
structure Url where
  scheme : String
  username : String
  password : Option String
  host : Option (List Char)
  port : Option UInt16
  fragment : Option String
  deriving DecidableEq

/-- `std::net::SocketAddr`. -/
structure SocketAddr where
  ip : IpAddr
  port : UInt16
  deriving DecidableEq

/-- What the code reads of a response. A `Location` header may fail to be text. -/
structure Response where
  status : Nat
  location : Option (Except String (List Char))

/-- What the code runs in. Environment and name resolution may answer differently at each
validation, servers and clock at each request. -/
structure World where
  parse : List Char → Except String Url
  join : Url → List Char → Except String Url
  parseIp : List Char → Option IpAddr
  /-- `VIDARAX_ALLOW_INSECURE_HTTP` at a validation. -/
  insecureHttp : Nat → Bool
  /-- Answer to a `host:port` text at a validation. -/
  resolve : Nat → List Char → Option (List SocketAddr)
  buildClient : Nat → Except String Unit
  timeRemaining : Nat → Except String Unit
  send : Nat → Url → List SocketAddr → Except String Response

/-! ### Validation -/

/-- `Url::port_or_known_default`. -/
def Url.portOrKnownDefault (url : Url) : Option UInt16 :=
  url.port.or ([("http", 80), ("https", 443), ("ws", 80), ("wss", 443), ("ftp", 21)].lookup
    url.scheme)

/-- `validate_remote_host`; `validate.rs:220`. -/
def validateRemoteHost (w : World) (url : Url) : Except String (List Char) :=
  if url.username ≠ "" ∨ url.password.isSome then
    .error "source_uri must not contain embedded credentials"
  else
    match url.host with
    | none => .error "source_uri must include a valid host"
    | some host =>
      let lower := host.map Char.toLower
      if lower = "localhost".toList ∨ ".localhost".toList <:+ lower ∨ ".local".toList <:+ lower then
        .error "source_uri host must not target localhost/local domains"
      else if (w.parseIp lower).any blockedIp then
        .error "source_uri host must not be private, loopback, or link-local"
      else .ok host

/-- The text that is resolved for a host and a port. -/
def resolveTarget (host : List Char) (port : UInt16) : List Char :=
  host ++ ':' :: (toString port.toNat).toList

/-- `validate_resolved_public_host` at a validation; `validate.rs:239`. -/
def validateResolvedPublicHost (w : World) (n : Nat) (host : List Char) (port : UInt16) :
    Except String (List SocketAddr) :=
  match w.resolve n (resolveTarget host port) with
  | none => .error "source_uri host could not be resolved"
  | some addrs =>
    if addrs = [] then .error "source_uri host did not resolve to any address"
    else if addrs.any (blockedIp ·.ip) then
      .error "source_uri host must not be private, loopback, or link-local"
    else .ok addrs

/-- The schemes that are fetched. -/
def checkFetchScheme (w : World) (n : Nat) (url : Url) : Except String Unit :=
  if url.scheme = "https" then .ok ()
  else if url.scheme = "http" then
    if !w.insecureHttp n then .error "insecure http scheme" else .ok ()
  else .error "remote media fetch only supports http/https URLs"

/-- The port that is fetched from. -/
def Url.fetchPort (url : Url) : UInt16 :=
  url.portOrKnownDefault.getD (if url.scheme = "http" then 80 else 443)

/-- `validate_remote_fetch_url` at a validation; `validate.rs:110`. -/
def validateRemoteFetchUrl (w : World) (n : Nat) (url : Url) : Except String (List SocketAddr) := do
  checkFetchScheme w n url
  let host ← validateRemoteHost w url
  validateResolvedPublicHost w n host url.fetchPort

/-- `callback_error`, where `replace` is `str::replace`; `validate.rs:147`. -/
def callbackError (replace : String → String → String → String) (message : String) : String :=
  replace message "source_uri" "callback URL"

/-- The callbacks that are validated. -/
def checkCallback (url : Url) : Except String Unit :=
  if url.scheme ≠ "https" then .error "callback URL must use https"
  else if url.fragment.isSome then .error "callback URL must not contain a fragment"
  else .ok ()

/-- `validate_public_https_url` at a validation; `validate.rs:134`. -/
def validatePublicHttpsUrl (w : World) (replace : String → String → String → String) (n : Nat)
    (url : Url) : Except String (List SocketAddr) := do
  checkCallback url
  let host ← (validateRemoteHost w url).mapError (callbackError replace)
  (validateResolvedPublicHost w n host (url.portOrKnownDefault.getD 443)).mapError
    (callbackError replace)

/-! ### Requests -/

/-- A request and the addresses that its client is pinned to. -/
structure Request where
  url : Url
  addrs : List SocketAddr

/-- `REMOTE_MEDIA_PREFETCH_MAX_REDIRECTS`; `fetch.rs:22`. -/
def maxRedirects : Nat := 5

/-- `validate_redirect_target`, where validation is the `n`-th; `fetch.rs:250`. -/
def validateRedirectTarget (w : World) (n : Nat) (currentUrl nextUrl : Url) :
    Except String (List SocketAddr) :=
  if nextUrl.scheme ≠ "http" ∧ nextUrl.scheme ≠ "https" then
    .error "redirect target rejected: unsupported scheme"
  else if currentUrl.scheme = "https" ∧ nextUrl.scheme = "http" then
    .error "redirect target rejected: https->http downgrade"
  else
    match validateRemoteFetchUrl w n nextUrl with
    | .ok addrs => .ok addrs
    | .error err =>
      if err = "insecure http scheme" then
        .error "redirect target rejected: insecure http scheme"
      else
        let host := nextUrl.host.elim "<missing host>" String.ofList
        .error s!"redirect target rejected: {host} ({err})"

/-- What is done up to the moment a request is sent: `pinned_fetch_client` and the time limit. -/
def prepareRequest (w : World) (n : Nat) (url : Url) : Except String Unit := do
  if url.host.isNone then throw "remote media fetch URL must include a host"
  w.buildClient n
  w.timeRemaining n

/-- Where a response leads to: a URL with its addresses, or nowhere. -/
def redirectOf (w : World) (n : Nat) (url : Url) (location : Except String (List Char)) :
    Except String Request := do
  let location ← location.mapError (s!"invalid redirect Location header: {·}")
  let nextUrl ← (w.join url location).mapError (s!"invalid redirect Location header: {·}")
  let addrs ← validateRedirectTarget w (n + 1) url nextUrl
  return ⟨nextUrl, addrs⟩

/-- Loop of `fetch_remote_media_response` from the `n`-th request on, with the requests that are
sent; `fetch.rs:192`. -/
def fetchLoop (w : World) (n : Nat) (request : Request) : Nat →
    List Request × Except String Response
  | 0 => ([], .error "too many redirects")
  | left + 1 =>
    match prepareRequest w n request.url with
    | .error err => ([], .error err)
    | .ok () =>
      match w.send n request.url request.addrs with
      | .error err => ([request], .error s!"remote media fetch failed: {err}")
      | .ok response =>
        if ¬ (300 ≤ response.status ∧ response.status < 400) then ([request], .ok response)
        else
          match response.location with
          | none => ([request], .ok response)
          | some location =>
            if n = maxRedirects then ([request], .error "too many redirects")
            else
              match redirectOf w n request.url location with
              | .error err => ([request], .error err)
              | .ok next =>
                let (requests, result) := fetchLoop w (n + 1) next left
                (request :: requests, result)

/-- `fetch_remote_media_response`; `fetch.rs:192`. -/
def fetchRemoteMediaResponse (w : World) (url : Url) (validatedAddrs : List SocketAddr) :
    List Request × Except String Response :=
  fetchLoop w 0 ⟨url, validatedAddrs⟩ (maxRedirects + 1)

/-- `prefetch_remote_media` up to the response; `fetch.rs:129`. -/
def prefetchRemoteMedia (w : World) (url : List Char) : List Request × Except String Response :=
  match (w.parse url).mapError (s!"invalid remote media URL: {·}") with
  | .error err => ([], .error err)
  | .ok parsed =>
    match validateRemoteFetchUrl w 0 parsed with
    | .error err => ([], .error err)
    | .ok validatedAddrs => fetchRemoteMediaResponse w parsed validatedAddrs

/-! ### Validated addresses -/

/-- The filter refuses an answer, or it misses none of its addresses. -/
def Known (addrs : List SocketAddr) : Prop :=
  (∃ a ∈ addrs, blockedIp a.ip = true) ∨ ∀ a ∈ addrs, ¬ a.ip.IsMissed

/-- The text that is resolved for a URL that may be fetched. -/
def FetchTarget (w : World) (n : Nat) (url : Url) (target : List Char) : Prop :=
  checkFetchScheme w n url = .ok () ∧
    ∃ host, validateRemoteHost w url = .ok host ∧ target = resolveTarget host url.fetchPort

/-- The text that is resolved for a URL that may be a callback. -/
def CallbackTarget (w : World) (url : Url) (target : List Char) : Prop :=
  checkCallback url = .ok () ∧
    ∃ host, validateRemoteHost w url = .ok host ∧
      target = resolveTarget host (url.portOrKnownDefault.getD 443)

/-- An answer that is accepted. -/
structure Accepted (w : World) (n : Nat) (target : List Char) (addrs : List SocketAddr) : Prop where
  answer : w.resolve n target = some addrs
  some : addrs ≠ []
  passes : ∀ a ∈ addrs, blockedIp a.ip = false

section

variable {w : World} {n : Nat} {url : Url} {addrs : List SocketAddr}

theorem validateResolvedPublicHost_eq_ok {host : List Char} {port : UInt16} :
    validateResolvedPublicHost w n host port = .ok addrs ↔
      Accepted w n (resolveTarget host port) addrs := by
  unfold validateResolvedPublicHost
  constructor
  · intro h
    split at h
    · cases h
    · next found hfound =>
      obtain ⟨hsome, h⟩ := guard_eq_ok h
      obtain ⟨hany, h⟩ := guard_eq_ok h
      cases h
      refine ⟨hfound, hsome, fun a ha ↦ Bool.eq_false_iff.mpr fun hblocked ↦ ?_⟩
      exact hany (List.any_eq_true.mpr ⟨a, ha, hblocked⟩)
  · intro h
    have hany : ¬ addrs.any (blockedIp ·.ip) = true := by
      intro hany
      obtain ⟨a, ha, hblocked⟩ := List.any_eq_true.mp hany
      rw [h.passes a ha] at hblocked
      cases hblocked
    simp only [h.answer]
    rw [if_neg h.some, if_neg hany]

theorem mapError_eq_ok {α : Type} {x : Except String α} {f : String → String} {a : α} :
    x.mapError f = .ok a ↔ x = .ok a := by
  cases x with
  | error e =>
    constructor
    · intro h
      cases h
    · intro h
      cases h
  | ok b => exact Iff.rfl

theorem validateRemoteFetchUrl_eq_ok :
    validateRemoteFetchUrl w n url = .ok addrs ↔
      ∃ target, FetchTarget w n url target ∧ Accepted w n target addrs := by
  constructor
  · intro h
    obtain ⟨⟨⟩, hscheme, h⟩ := bind_eq_ok h
    obtain ⟨host, hhost, h⟩ := bind_eq_ok h
    exact ⟨_, ⟨hscheme, host, hhost, rfl⟩, validateResolvedPublicHost_eq_ok.mp h⟩
  · rintro ⟨_, ⟨hscheme, host, hhost, rfl⟩, haccepted⟩
    simp only [validateRemoteFetchUrl, hscheme, hhost]
    exact validateResolvedPublicHost_eq_ok.mpr haccepted

theorem validatePublicHttpsUrl_eq_ok {replace : String → String → String → String} :
    validatePublicHttpsUrl w replace n url = .ok addrs ↔
      ∃ target, CallbackTarget w url target ∧ Accepted w n target addrs := by
  constructor
  · intro h
    obtain ⟨⟨⟩, hcheck, h⟩ := bind_eq_ok h
    obtain ⟨host, hhost, h⟩ := bind_eq_ok h
    exact ⟨_, ⟨hcheck, host, mapError_eq_ok.mp hhost, rfl⟩,
      validateResolvedPublicHost_eq_ok.mp (mapError_eq_ok.mp h)⟩
  · rintro ⟨_, ⟨hcheck, host, hhost, rfl⟩, haccepted⟩
    simp only [validatePublicHttpsUrl, hcheck, hhost]
    exact mapError_eq_ok.mpr (validateResolvedPublicHost_eq_ok.mpr haccepted)

/-- The addresses of an accepted answer are public exactly when the filter knows the answer. -/
theorem Accepted.public_iff {target : List Char} (h : Accepted w n target addrs) :
    (∀ a ∈ addrs, ¬ a.ip.IsSpecial) ↔ Known addrs := by
  constructor
  · intro hpublic
    exact .inr fun a ha hmissed ↦ hpublic a ha (a.ip.isSpecial_iff.mpr (.inr hmissed))
  · rintro (⟨a, ha, hblocked⟩ | hmissed) a' ha'
    · rw [h.passes a ha] at hblocked
      cases hblocked
    · exact (a'.ip.not_isSpecial_iff (h.passes a' ha')).mpr (hmissed a' ha')

end

/-- Validation gives only public addresses exactly when the filter knows the answers it gets. -/
theorem public_iff_known {w : World} {validate : Nat → Url → Except String (List SocketAddr)}
    {targets : Nat → Url → List Char → Prop}
    (hvalidate : ∀ n url addrs, validate n url = .ok addrs ↔
      ∃ target, targets n url target ∧ Accepted w n target addrs) :
    (∀ n url addrs, validate n url = .ok addrs → ∀ a ∈ addrs, ¬ a.ip.IsSpecial) ↔
      ∀ n url target addrs, targets n url target → w.resolve n target = some addrs →
        Known addrs := by
  constructor
  · intro hpublic n url target addrs htarget hanswer
    by_cases hblocked : ∃ a ∈ addrs, blockedIp a.ip = true
    · exact .inl hblocked
    · by_cases hnone : addrs = []
      · subst hnone
        exact .inr fun a ha ↦ by cases ha
      · have haccepted : Accepted w n target addrs :=
          ⟨hanswer, hnone, fun a ha ↦ Bool.eq_false_iff.mpr fun h ↦ hblocked ⟨a, ha, h⟩⟩
        exact haccepted.public_iff.mp
          (hpublic n url addrs ((hvalidate n url addrs).mpr ⟨target, htarget, haccepted⟩))
  · intro hknown n url addrs h
    obtain ⟨target, htarget, haccepted⟩ := (hvalidate n url addrs).mp h
    exact haccepted.public_iff.mpr (hknown n url target addrs htarget haccepted.answer)

/-! ### The requests of a run -/

section

variable {w : World} {n : Nat} {url : Url}

/-- A redirect leads to a URL with the addresses of its validation, and not from https to http. -/
theorem redirectOf_eq_ok {location : Except String (List Char)} {next : Request}
    (h : redirectOf w n url location = .ok next) :
    validateRemoteFetchUrl w (n + 1) next.url = .ok next.addrs ∧
      (url.scheme = "https" → next.url.scheme = "https") := by
  obtain ⟨text, -, h⟩ := bind_eq_ok h
  obtain ⟨nextUrl, -, h⟩ := bind_eq_ok h
  obtain ⟨addrs, htarget, h⟩ := bind_eq_ok h
  cases h
  obtain ⟨hscheme, htarget⟩ := guard_eq_ok htarget
  obtain ⟨hdowngrade, htarget⟩ := guard_eq_ok htarget
  constructor
  · split at htarget
    · next found hfound =>
      cases htarget
      exact hfound
    · split at htarget <;> cases htarget
  · intro hhttps
    by_contra hother
    exact hscheme ⟨fun hhttp ↦ hdowngrade ⟨hhttps, hhttp⟩, hother⟩

/-- A pass of the loop sends nothing, or one request after which it ends or follows a redirect. -/
theorem fetchLoop_cases (w : World) (n : Nat) (request : Request) (left : Nat) :
    (fetchLoop w n request (left + 1)).1 = [] ∨ (fetchLoop w n request (left + 1)).1 = [request] ∨
      ∃ location next, redirectOf w n request.url location = .ok next ∧
        (fetchLoop w n request (left + 1)).1 = request :: (fetchLoop w (n + 1) next left).1 := by
  rw [fetchLoop]
  split
  · exact .inl rfl
  · split
    · exact .inr (.inl rfl)
    · split
      · exact .inr (.inl rfl)
      · split
        · exact .inr (.inl rfl)
        · split
          · exact .inr (.inl rfl)
          · split
            · exact .inr (.inl rfl)
            · next location _ _ _ next hnext => exact .inr (.inr ⟨location, next, hnext, rfl⟩)

theorem length_fetchLoop (w : World) (n : Nat) (request : Request) (left : Nat) :
    (fetchLoop w n request left).1.length ≤ left := by
  induction left generalizing n request with
  | zero => exact Nat.le_refl 0
  | succ left ih =>
    rcases fetchLoop_cases w n request left with hnone | hone | ⟨_, next, -, hmore⟩
    · rw [hnone]
      exact Nat.zero_le _
    · rw [hone]
      exact Nat.succ_le_succ (Nat.zero_le _)
    · rw [hmore]
      exact Nat.succ_le_succ (ih (n + 1) next)

/-- Each request is pinned to the addresses of its own validation. -/
theorem fetchLoop_pinned {request : Request} {left : Nat}
    (h : validateRemoteFetchUrl w n request.url = .ok request.addrs) {i : Nat} {r : Request}
    (hr : (fetchLoop w n request left).1[i]? = some r) :
    validateRemoteFetchUrl w (n + i) r.url = .ok r.addrs := by
  induction left generalizing n request i with
  | zero => cases hr
  | succ left ih =>
    have hfirst : ∀ rest : List Request, (request :: rest)[i]? = some r → i = 0 →
        validateRemoteFetchUrl w (n + i) r.url = .ok r.addrs := by
      intro rest hr hi
      subst hi
      cases hr
      exact h
    rcases fetchLoop_cases w n request left with hnone | hone | ⟨_, next, hnext, hmore⟩
    · rw [hnone] at hr
      cases hr
    · rw [hone] at hr
      cases i with
      | zero => exact hfirst [] hr rfl
      | succ i => cases hr
    · rw [hmore] at hr
      cases i with
      | zero => exact hfirst _ hr rfl
      | succ i =>
        have := ih (redirectOf_eq_ok hnext).1 hr
        rwa [Nat.add_right_comm] at this

/-- A run that has come to https stays there. -/
theorem fetchLoop_https {request : Request} {left : Nat} (h : request.url.scheme = "https") :
    ∀ r ∈ (fetchLoop w n request left).1, r.url.scheme = "https" := by
  induction left generalizing n request with
  | zero =>
    intro r hr
    cases hr
  | succ left ih =>
    intro r hr
    rcases fetchLoop_cases w n request left with hnone | hone | ⟨_, next, hnext, hmore⟩
    · rw [hnone] at hr
      cases hr
    · rw [hone] at hr
      rw [List.mem_singleton.mp hr]
      exact h
    · rw [hmore] at hr
      rcases List.mem_cons.mp hr with rfl | hr
      · exact h
      · exact ih ((redirectOf_eq_ok hnext).2 h) r hr

theorem fetchLoop_downgrade (w : World) (n : Nat) (request : Request) (left : Nat) :
    (fetchLoop w n request left).1.Pairwise
      fun r s ↦ r.url.scheme = "https" → s.url.scheme = "https" := by
  induction left generalizing n request with
  | zero => exact .nil
  | succ left ih =>
    rcases fetchLoop_cases w n request left with hnone | hone | ⟨_, next, hnext, hmore⟩
    · rw [hnone]
      exact .nil
    · rw [hone]
      exact List.pairwise_singleton _ _
    · rw [hmore]
      apply List.Pairwise.cons
      · intro s hs h
        exact fetchLoop_https ((redirectOf_eq_ok hnext).2 h) s hs
      · exact ih (n + 1) next

end

/-- The first request of a run is pinned to the addresses of the URL that was parsed. -/
theorem prefetchRemoteMedia_cases (w : World) (text : List Char) :
    (prefetchRemoteMedia w text).1 = [] ∨ ∃ request : Request,
      validateRemoteFetchUrl w 0 request.url = .ok request.addrs ∧
        (prefetchRemoteMedia w text).1 = (fetchLoop w 0 request (maxRedirects + 1)).1 := by
  unfold prefetchRemoteMedia
  split
  · exact .inl rfl
  · next parsed _ =>
    split
    · exact .inl rfl
    · next addrs haddrs => exact .inr ⟨⟨parsed, addrs⟩, haddrs, rfl⟩

/-- A run sends at most six requests, each to the addresses of its own validation, and does not
leave https. Its addresses are public where the filter knows the answers to what may be resolved,
and only there all addresses that validation can give are. -/
theorem remote_fetch_public_iff (w : World) (replace : String → String → String → String)
    (text : List Char) :
    let requests := (prefetchRemoteMedia w text).1
    (∀ (i : Nat) (r : Request), requests[i]? = some r →
      validateRemoteFetchUrl w i r.url = .ok r.addrs) ∧
    requests.length ≤ 6 ∧
    requests.Pairwise (fun r s ↦ r.url.scheme = "https" → s.url.scheme = "https") ∧
    ((∀ n url target addrs, FetchTarget w n url target → w.resolve n target = some addrs →
        Known addrs) →
      ∀ r ∈ requests, ∀ a ∈ r.addrs, ¬ a.ip.IsSpecial) ∧
    ((∀ n url addrs, validateRemoteFetchUrl w n url = .ok addrs →
        ∀ a ∈ addrs, ¬ a.ip.IsSpecial) ↔
      ∀ n url target addrs, FetchTarget w n url target → w.resolve n target = some addrs →
        Known addrs) ∧
    ((∀ n url addrs, validatePublicHttpsUrl w replace n url = .ok addrs →
        ∀ a ∈ addrs, ¬ a.ip.IsSpecial) ↔
      ∀ n url target addrs, CallbackTarget w url target → w.resolve n target = some addrs →
        Known addrs) := by
  intro requests
  have hpinned : ∀ (i : Nat) (r : Request), requests[i]? = some r →
      validateRemoteFetchUrl w i r.url = .ok r.addrs := by
    intro i r hr
    rcases prefetchRemoteMedia_cases w text with hnone | ⟨request, hrequest, heq⟩
    · rw [show requests = [] from hnone] at hr
      cases hr
    · rw [show requests = _ from heq] at hr
      have := fetchLoop_pinned hrequest hr
      rwa [Nat.zero_add] at this
  have hfetch := @public_iff_known w _ (FetchTarget w) fun n url addrs ↦
    validateRemoteFetchUrl_eq_ok
  refine ⟨hpinned, ?_, ?_, ?_, hfetch, ?_⟩
  · rcases prefetchRemoteMedia_cases w text with hnone | ⟨request, -, heq⟩
    · rw [show requests = [] from hnone]
      exact Nat.zero_le _
    · rw [show requests = _ from heq]
      exact length_fetchLoop w 0 request _
  · rcases prefetchRemoteMedia_cases w text with hnone | ⟨request, -, heq⟩
    · rw [show requests = [] from hnone]
      exact .nil
    · rw [show requests = _ from heq]
      exact fetchLoop_downgrade w 0 request _
  · intro hknown r hr
    obtain ⟨i, hi⟩ := List.mem_iff_getElem?.mp hr
    exact hfetch.mpr hknown i r.url r.addrs (hpinned i r hi)
  · exact public_iff_known fun n url addrs ↦ validatePublicHttpsUrl_eq_ok

/-- A host whose name leads to the address of a metadata service behind a translator. -/
def translatedWorld : World where
  parse _ := .ok ⟨"https", "", none, some "example.com".toList, none, none⟩
  join url _ := .ok url
  parseIp _ := none
  insecureHttp _ := false
  resolve _ _ := some [⟨.v6 (.ofSegments 0x64 0xFF9B 0 0 0 0 0xA9FE 0xA9FE), 443⟩]
  buildClient _ := .ok ()
  timeRemaining _ := .ok ()
  send _ _ _ := .ok ⟨200, none⟩

/-- A fetch connects to `64:ff9b::a9fe:a9fe`, which carries `169.254.169.254`. -/
theorem remote_fetch_reaches_translated :
    ¬ ∀ r ∈ (prefetchRemoteMedia translatedWorld "https://example.com".toList).1,
      ∀ a ∈ r.addrs, ¬ a.ip.IsSpecial := by
  intro h
  have hrequests : (prefetchRemoteMedia translatedWorld "https://example.com".toList).1 =
      [⟨⟨"https", "", none, some "example.com".toList, none, none⟩,
        [⟨.v6 (.ofSegments 0x64 0xFF9B 0 0 0 0 0xA9FE 0xA9FE), 443⟩]⟩] := by
    rfl
  have hspecial : (Ipv6Addr.ofSegments 0x64 0xFF9B 0 0 0 0 0xA9FE 0xA9FE).IsSpecial := by
    show Ipv4Addr.IsSpecial _
    decide
  rw [hrequests] at h
  exact h _ List.mem_cons_self _ List.mem_cons_self hspecial

end Vidarax.Ingest
