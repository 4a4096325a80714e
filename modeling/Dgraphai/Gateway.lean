import Mathlib.Data.Nat.Notation
import Mathlib.Logic.Function.Basic
import Mathlib.Tactic.SplitIfs

/-!
# Requests through the gateway (`agent-go/cmd/dgraph-gateway/main.go`)

`serve` is the mux with the handler behind it; whether the limiter lets a request through and what the JWT
library makes of a token are its parameters. The upstream trusts four identity headers. Behind the token check
they are set from the claims, but a public route is forwarded with what the client sent (`trustworthy_iff`).
-/

namespace Dgraphai.Gateway

abbrev Text := List Char

/-! ### Headers -/

/-- The values of the lines of each header, under its canonical name. -/
abbrev Headers := Text → List Text

namespace Headers
variable (h : Headers)

def get (name : Text) : Text := (h name).headD []

def set (name value : Text) : Headers := Function.update h name [value]

end Headers

/-- A letter that begins a part of a name is a capital, every other is not. -/
def capitalize : Bool → Text → Text
  | _, [] => []
  | first, c :: cs => (if first then c.toUpper else c.toLower) :: capitalize (c = '-') cs

/-- The characters of a header name. -/
def isTokenChar (c : Char) : Bool := c.isAlphanum || "!#$%&'*+-.^_|~".toList.contains c || c.toNat = 96

/-- `CanonicalMIMEHeaderKey`. -/
def canonicalKey (name : Text) : Text := if name.all isTokenChar then capitalize true name else name

/-- `textproto.TrimString`. -/
def trim (s : Text) : Text :=
  let blank := fun c => c = ' ' ∨ c = '\t'
  ((s.dropWhile blank).reverse.dropWhile blank).reverse

/-- The headers that `Connection` names. -/
def connectionOptions (h : Headers) : List Text :=
  (((h "Connection".toList).flatMap fun v => v.splitOn ',').map trim).filterMap fun name =>
    if name = [] then none else some (canonicalKey name)

def hopHeaders : List Text := [
  "Connection".toList, "Proxy-Connection".toList, "Keep-Alive".toList, "Proxy-Authenticate".toList,
  "Proxy-Authorization".toList, "Te".toList, "Trailer".toList, "Transfer-Encoding".toList, "Upgrade".toList]

/-- The end-to-end headers that `ReverseProxy` passes on; what it adds for itself is left out. -/
def proxied (h : Headers) : Headers := fun name =>
  if hopHeaders.contains name || (connectionOptions h).contains name then [] else h name

/-! ### The handler -/

/-- `RemoteAddr`: the address of the client with the port of its connection. -/
structure RemoteAddr where
  ip : Text
  port : ℕ
  deriving DecidableEq, Repr

def RemoteAddr.text (a : RemoteAddr) : Text :=
  (if ':' ∈ a.ip then '[' :: a.ip ++ [']'] else a.ip) ++ ':' :: Nat.toDigits 10 a.port

structure Request where
  remoteAddr : RemoteAddr
  path : Text
  headers : Headers

structure DGraphClaims where
  userID : Text
  tenantID : Text
  email : Text
  role : Text
  plan : Text
  deriving DecidableEq, Repr

def DGraphClaims.empty : DGraphClaims := ⟨[], [], [], [], []⟩

inductive Answer where
  | health
  /-- The status, the `detail` and `Retry-After`. -/
  | refused (status : ℕ) (detail : String) (retryAfter : Option String)
  /-- What goes upstream, and the claims that were validated for it. -/
  | forwarded (headers : Headers) (validated : Option DGraphClaims)

def publicRoutes : List Text := [
  "/api/auth/login".toList, "/api/auth/signup".toList, "/api/auth/forgot-password".toList,
  "/api/auth/reset-password".toList, "/api/auth/verify-email".toList, "/api/auth/saml/".toList,
  "/api/health".toList, "/metrics".toList, "/assets/".toList]

def isPublicRoute (path : Text) : Bool := publicRoutes.any fun p => p.isPrefixOf path

/-- `validateJWT`; `parse` is `jwt.ParseWithClaims` under the secret of the gateway. -/
def validateJWT (parse : Text → Option DGraphClaims) (headers : Headers) : Option DGraphClaims :=
  let bearer := headers.get "Authorization".toList
  if "Bearer ".toList.isPrefixOf bearer then parse (bearer.drop 7)
  -- an API key; no text gets here, for it would begin with "Bearer " too
  else if "Bearer dg_".toList.isPrefixOf bearer then some .empty
  else none

/-- The headers the upstream trusts, with their claims. -/
def identityHeaders : List (Text × (DGraphClaims → Text)) := [
  ("X-User-Id".toList, DGraphClaims.userID),
  ("X-Tenant-Id".toList, DGraphClaims.tenantID),
  ("X-User-Role".toList, DGraphClaims.role),
  ("X-User-Plan".toList, DGraphClaims.plan)]

def withIdentity (claims : DGraphClaims) (h : Headers) : Headers :=
  identityHeaders.foldl (fun h header => h.set header.1 (header.2 claims)) h

/-- `HandleFunc("/", …)`; `allowed` is what `limiter.Allow` says. -/
def handle (parse : Text → Option DGraphClaims) (allowed : Bool) (r : Request) : Answer :=
  if isPublicRoute r.path then
    if allowed then .forwarded (proxied r.headers) none
    else .refused 429 "Too many requests" none
  else if allowed then
    match validateJWT parse r.headers with
    | some claims => .forwarded (proxied (withIdentity claims r.headers)) (some claims)
    | none => .refused 401 "Invalid or expired token" none
  else .refused 429 "Rate limit exceeded" (some "60")

def healthPath : Text := "/health".toList

def serve (parse : Text → Option DGraphClaims) (allowed : Bool) (r : Request) : Answer :=
  if r.path = healthPath then .health else handle parse allowed r

/-! ### What the upstream is told -/

/-- Each identity header of a forwarded request is empty or its claim of the validated token. -/
def Answer.Trustworthy (answer : Answer) : Prop := ∀ headers validated, answer = .forwarded headers validated →
  ∀ header ∈ identityHeaders, (∀ v ∈ headers header.1, v = []) ∨
    ∃ claims ∈ validated, headers header.1 = [header.2 claims]

/-- The client sends no identity header, or none that is passed on. -/
def Request.Plain (r : Request) : Prop :=
  ∀ header ∈ identityHeaders, header.1 ∈ connectionOptions r.headers ∨ ∀ v ∈ r.headers header.1, v = []

variable {parse : Text → Option DGraphClaims} {allowed : Bool} {r : Request} {claims : DGraphClaims}
  {h : Headers} {header : Text × (DGraphClaims → Text)}

theorem proxied_identity (hmem : header ∈ identityHeaders) :
    proxied h header.1 = if header.1 ∈ connectionOptions h then [] else h header.1 := by
  have hend : ∀ name ∈ identityHeaders.map Prod.fst, name ∉ hopHeaders := by decide +kernel
  have hno : header.1 ∉ hopHeaders := hend _ (List.mem_map_of_mem hmem)
  simp only [proxied, Bool.or_eq_true, List.contains_iff_mem, hno, false_or]

theorem withIdentity_of_mem (hmem : header ∈ identityHeaders) :
    withIdentity claims h header.1 = [header.2 claims] := by
  simp only [identityHeaders, List.mem_cons, List.not_mem_nil, or_false] at hmem
  rcases hmem with rfl | rfl | rfl | rfl <;> rfl

theorem trustworthy_of_refused {status : ℕ} {detail : String} {retryAfter : Option String} :
    (Answer.refused status detail retryAfter).Trustworthy :=
  fun _ _ h => by cases h

/-- What the client sends goes upstream as it is. -/
theorem trustworthy_unvalidated : (Answer.forwarded (proxied r.headers) none).Trustworthy ↔ r.Plain := by
  have hheader : ∀ header ∈ identityHeaders, (∀ v ∈ proxied r.headers header.1, v = []) ↔
      header.1 ∈ connectionOptions r.headers ∨ ∀ v ∈ r.headers header.1, v = [] := by
    intro header hmem
    rw [proxied_identity hmem]
    split_ifs with hdropped <;> simp [hdropped]
  constructor
  · intro h header hmem
    rcases h _ _ rfl header hmem with hempty | ⟨_, hclaims, -⟩
    · exact (hheader header hmem).1 hempty
    · cases hclaims
  · intro h _ _ heq header hmem
    obtain ⟨rfl, rfl⟩ := Answer.forwarded.inj heq
    exact .inl ((hheader header hmem).2 (h header hmem))

/-- What the client sends in an identity header is replaced. -/
theorem trustworthy_validated (claims : DGraphClaims) (h : Headers) :
    (Answer.forwarded (proxied (withIdentity claims h)) (some claims)).Trustworthy := by
  intro _ _ heq header hmem
  obtain ⟨rfl, rfl⟩ := Answer.forwarded.inj heq
  rw [proxied_identity hmem, withIdentity_of_mem hmem]
  split_ifs
  · exact .inl fun v hv => absurd hv List.not_mem_nil
  · exact .inr ⟨claims, rfl, rfl⟩

/-- A forwarded request tells the upstream only what was validated, exactly if it is not one that a client sends
to a public route with an identity header of its own. -/
theorem trustworthy_iff (parse : Text → Option DGraphClaims) (allowed : Bool) (r : Request) :
    (serve parse allowed r).Trustworthy ↔ (isPublicRoute r.path = true → allowed = true → r.Plain) := by
  unfold serve handle
  split_ifs with hpath hpublic hallowed hallowed
  · have hprivate : isPublicRoute healthPath = false := by decide +kernel
    refine iff_of_true (fun _ _ h => by cases h) fun hpublic => ?_
    rw [hpath, hprivate] at hpublic
    cases hpublic
  · rw [trustworthy_unvalidated]
    exact ⟨fun h _ _ => h, fun h => h hpublic hallowed⟩
  · exact iff_of_true (trustworthy_of_refused) fun _ h => absurd h hallowed
  · refine iff_of_true ?_ fun h => absurd h hpublic
    split
    next claims _ => exact trustworthy_validated claims r.headers
    next => exact trustworthy_of_refused
  · exact iff_of_true (trustworthy_of_refused) fun _ h => absurd h hallowed

/-- A health check that claims to come from a user. -/
def forged : Request where
  remoteAddr := ⟨"10.0.0.1".toList, 40000⟩
  path := "/api/health".toList
  headers := fun name => if name = "X-User-Id".toList then ["admin".toList] else []

theorem forged_not_trustworthy : ¬ ∀ parse allowed r, (serve parse allowed r).Trustworthy := by
  intro h
  have hanswer : serve (fun _ => none) true forged = .forwarded (proxied forged.headers) none := rfl
  rcases h (fun _ => none) true forged _ _ hanswer ("X-User-Id".toList, DGraphClaims.userID) (.head _) with
    hempty | ⟨_, hclaims, -⟩
  · have hsent : proxied forged.headers "X-User-Id".toList = ["admin".toList] := by decide +kernel
    have hnil := hempty "admin".toList (hsent ▸ .head _)
    revert hnil
    decide +kernel
  · cases hclaims

end Dgraphai.Gateway
