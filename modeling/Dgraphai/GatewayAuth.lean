import Dgraphai.AuthContext
import Dgraphai.Gateway
import Dgraphai.Scim

/-!
# What the API authenticates and the gateway lets through

The API takes a local token, a token of an OIDC provider, a SCIM token or a scanner key. The gateway asks every
request that is not for a public route for a JWT under its own secret; the branch of `validateJWT` that would
pass a `dg_` token on is never reached. `isForwarded_iff` says which of the requests that the API would
authenticate the gateway forwards.
-/

namespace Dgraphai.Gateway

open Auth (Time Uuid)

/-! ### The API -/

namespace Request
variable (r : Request)

/-- `request.headers.get(name)`. -/
def header? (name : Text) : Option Text := (r.headers name).head?

/-- The token that `HTTPBearer` takes from `Authorization`. -/
def bearerToken : Option Text :=
  (r.header? "Authorization".toList).bind fun v =>
    let scheme := v.takeWhile (· ≠ ' ')
    let credentials := (v.dropWhile (· ≠ ' ')).drop 1
    if scheme.map Char.toLower = "bearer".toList ∧ credentials ≠ [] then some credentials else none

end Request

structure ScannerAgent where
  apiKeyHash : String
  isActive : Bool
  deriving DecidableEq, Repr

/-- What the API authenticates against. -/
structure Api where
  services : Provisioning.Services
  directory : Provisioning.Directory
  scanners : List ScannerAgent
  now : Time

namespace Api
variable (api : Api) (r : Request)

def env : Auth.Env := api.services.env

/-- A token of `/api/auth/login` or `/api/auth/signup`. -/
def Local : Prop := ∃ token ∈ r.bearerToken, ∃ claims ∈ api.env.unverifiedClaims (String.ofList token),
  Auth.IsLocal api.env claims ∧
    ∃ ctx db, Auth.localContext api.env api.now (String.ofList token) api.directory.auth = (.ok ctx, db)

/-- A token of the identity provider of a tenant. -/
def Oidc : Prop := ∃ token ∈ r.bearerToken, ∃ claims ∈ api.env.unverifiedClaims (String.ofList token),
  ¬ Auth.IsLocal api.env claims ∧ ∃ issuer, claims.issuer = some (.str issuer) ∧
    ∃ ctx db, Auth.oidcContext api.env api.now (String.ofList token) issuer api.directory.auth = (.ok ctx, db)

def scimRoute (tenantID rest : Text) : Text := "/api/scim/v2/".toList ++ tenantID ++ '/' :: rest

/-- `get_scim_tenant` for the tenant of the route. -/
def Scim : Prop := ∃ tenantID rest, r.path = scimRoute tenantID rest ∧
  ∃ tenant directory, Provisioning.getScimTenant api.services api.now (String.ofList tenantID)
    ((r.header? "Authorization".toList).map String.ofList) api.directory = (.ok tenant, directory)

/-- The endpoints that depend on `_get_scanner`. -/
def scannerRoutes : List Text := [
  "/api/scanner/rotate-key".toList, "/api/scanner/jobs".toList, "/api/scanner/sync".toList,
  "/api/scanner/heartbeat".toList]

/-- The endpoints that call `_get_agent_from_key`. -/
def agentRoutes : List Text := ["/api/agent/config".toList, "/api/agent/heartbeat".toList]

/-- The active scanners with the key of the request. -/
def keyHolders : List ScannerAgent :=
  match r.header? "X-Scanner-Key".toList with
  | some key => if key = [] then [] else
      api.scanners.filter fun s => s.apiKeyHash = api.env.hashToken (String.ofList key) ∧ s.isActive
  | none => []

/-- `_get_scanner`, which raises for more than one row, or `_get_agent_from_key`. -/
def Scanner : Prop :=
  r.path ∈ scannerRoutes ∧ (api.keyHolders r).length = 1 ∨ r.path ∈ agentRoutes ∧ api.keyHolders r ≠ []

def Authenticates : Prop := api.Local r ∨ api.Oidc r ∨ api.Scim r ∨ api.Scanner r

end Api

/-! ### The gateway -/

/-- What the JWT libraries promise: each refuses a token whose algorithm is none of those asked for. -/
structure JwtLibraries (E : Auth.Env) (parse : Text → Option DGraphClaims) (alg : Text → Option String) : Prop where
  hmac : ∀ token claims, parse token = some claims → ∃ a ∈ ["HS256", "HS384", "HS512"], alg token = some a
  asymmetric : ∀ config token now claims, E.decodeOidc config (String.ofList token) now = some claims →
    ∃ a ∈ ["RS256", "ES256", "RS384", "RS512"], alg token = some a

def Answer.IsForwarded : Answer → Prop
  | .forwarded .. => True
  | _ => False

/-- The request carries a JWT under the secret of the gateway, after `Bearer` in just this spelling. -/
def CarriesJwt (parse : Text → Option DGraphClaims) (r : Request) : Prop :=
  ∃ token, r.headers.get "Authorization".toList = "Bearer ".toList ++ token ∧ (parse token).isSome

variable {parse : Text → Option DGraphClaims} {alg : Text → Option String} {r : Request} {api : Api}

theorem validateJWT_isSome : (validateJWT parse r.headers).isSome ↔ CarriesJwt parse r := by
  unfold validateJWT
  dsimp only
  split_ifs with hbearer hkey
  · obtain ⟨token, htoken⟩ := List.isPrefixOf_iff_prefix.1 hbearer
    rw [← htoken]
    constructor
    · exact fun h => ⟨token, htoken.symm, h⟩
    · rintro ⟨token', htoken', h⟩
      obtain rfl := List.append_cancel_left (htoken.trans htoken')
      exact h
  · -- what begins with "Bearer dg_" begins with "Bearer "
    have hlong : "Bearer ".toList <+: "Bearer dg_".toList := by decide
    exact absurd (List.isPrefixOf_iff_prefix.2 (hlong.trans (List.isPrefixOf_iff_prefix.1 hkey))) hbearer
  · refine iff_of_false (fun h => by cases h) ?_
    rintro ⟨token, htoken, -⟩
    exact hbearer (List.isPrefixOf_iff_prefix.2 ⟨token, htoken.symm⟩)

/-- What the gateway forwards. -/
theorem isForwarded_serve : (serve parse true r).IsForwarded ↔
    r.path ≠ healthPath ∧ (isPublicRoute r.path = true ∨ CarriesJwt parse r) := by
  unfold serve handle
  rw [if_pos rfl, if_pos rfl]
  split_ifs with hpath hpublic
  · exact iff_of_false id fun h => h.1 hpath
  · exact iff_of_true trivial ⟨hpath, .inl hpublic⟩
  · rw [and_iff_right hpath, or_iff_right hpublic, ← validateJWT_isSome]
    split
    next claims hclaims => exact iff_of_true trivial (by rw [hclaims]; rfl)
    next hnone => exact iff_of_false id (by rw [hnone]; exact Bool.false_ne_true)

/-- The API reads the same token. -/
theorem bearerToken_of_carries {token : Text} (h : r.headers.get "Authorization".toList = "Bearer ".toList ++ token)
    {token' : Text} (htoken : token' ∈ r.bearerToken) : token' = token := by
  obtain ⟨v, hv, hscheme⟩ := Option.bind_eq_some_iff.1 htoken
  obtain rfl : r.headers.get "Authorization".toList = v := by
    rw [Headers.get, List.headD_eq_head?_getD, show (r.headers "Authorization".toList).head? = some v from hv,
      Option.getD_some]
  dsimp only at hscheme
  split_ifs at hscheme
  have hrest : ((("Bearer ".toList ++ token).dropWhile (· ≠ ' ')).drop 1) = token := rfl
  rw [h, hrest] at hscheme
  exact (Option.some.inj hscheme).symm

theorem not_carriesJwt_of_oidc (lib : JwtLibraries api.env parse alg) (h : api.Oidc r) : ¬ CarriesJwt parse r := by
  obtain ⟨token, htoken, claims, -, -, issuer, -, ctx, db, hctx⟩ := h
  rintro ⟨token', hheader, hparse⟩
  obtain rfl := bearerToken_of_carries hheader htoken
  obtain ⟨config, claims, -, -, hdecode, -⟩ := Auth.oidcContext_eq_ok.1 hctx
  obtain ⟨a, ha, halg⟩ := lib.asymmetric config token api.now claims hdecode
  obtain ⟨jwt, hjwt⟩ := Option.isSome_iff_exists.1 hparse
  obtain ⟨a', ha', halg'⟩ := lib.hmac token jwt hjwt
  obtain rfl : a = a' := Option.some.inj (halg.symm.trans halg')
  have hapart : ∀ a ∈ ["RS256", "ES256", "RS384", "RS512"], a ∉ ["HS256", "HS384", "HS512"] := by decide
  exact hapart a ha ha'

theorem scimRoute_private (tenantID rest : Text) : isPublicRoute (Api.scimRoute tenantID rest) = false ∧
    Api.scimRoute tenantID rest ≠ healthPath := by
  constructor
  · rfl
  · intro h
    have hsixth : some 's' = some 't' := congrArg (fun path : Text => path[5]?) h
    revert hsixth
    decide

theorem scannerRoutes_private : ∀ path ∈ Api.scannerRoutes ++ Api.agentRoutes,
    isPublicRoute path = false ∧ path ≠ healthPath := by
  decide +kernel

/-- Which of the requests that the API would authenticate are forwarded: those with a local token, a SCIM token or a
scanner key if they carry a JWT that the gateway accepts, those of an OIDC provider only to public routes. -/
theorem isForwarded_iff (lib : JwtLibraries api.env parse alg) (r : Request) :
    (api.Local r → ((serve parse true r).IsForwarded ↔
      r.path ≠ healthPath ∧ (isPublicRoute r.path = true ∨ CarriesJwt parse r))) ∧
    (api.Oidc r → ((serve parse true r).IsForwarded ↔ isPublicRoute r.path = true)) ∧
    (api.Scim r → ((serve parse true r).IsForwarded ↔ CarriesJwt parse r)) ∧
    (api.Scanner r → ((serve parse true r).IsForwarded ↔ CarriesJwt parse r)) := by
  rw [isForwarded_serve]
  have hprivate : isPublicRoute r.path = false → r.path ≠ healthPath →
      (r.path ≠ healthPath ∧ (isPublicRoute r.path = true ∨ CarriesJwt parse r) ↔ CarriesJwt parse r) := by
    intro hpublic hpath
    rw [and_iff_right hpath, hpublic, or_iff_right Bool.false_ne_true]
  refine ⟨fun _ => Iff.rfl, fun hoidc => ?_, ?_, ?_⟩
  · have hno := not_carriesJwt_of_oidc lib hoidc
    constructor
    · exact fun h => h.2.resolve_right hno
    · intro hpublic
      refine ⟨fun hpath => ?_, .inl hpublic⟩
      have hhealth : isPublicRoute healthPath = false := by decide +kernel
      rw [hpath, hhealth] at hpublic
      cases hpublic
  · rintro ⟨tenantID, rest, hpath, -⟩
    obtain ⟨hpublic, hne⟩ := scimRoute_private tenantID rest
    exact hprivate (hpath ▸ hpublic) (hpath ▸ hne)
  · intro hscanner
    have hmem : r.path ∈ Api.scannerRoutes ++ Api.agentRoutes :=
      List.mem_append.2 (hscanner.imp (fun h => h.1) fun h => h.1)
    obtain ⟨hpublic, hne⟩ := scannerRoutes_private r.path hmem
    exact hprivate hpublic hne

/-! ### A SCIM client and a scanner -/

def sampleApi : Api where
  services :=
    { env := Auth.plainEnv, lower := fun s => s, strip := fun s => s, isZero := fun _ => false
      isOne := fun _ => false, tokenUrlsafe := fun _ => "", saml := none }
  directory :=
    { auth := { Auth.emptyDb with tenants := fun id => if id = "t1" then some ⟨"starter", true⟩ else none }
      slugs := fun _ => none, apiKeys := [], invites := fun _ => none
      scimConfigs := [⟨"t1", "dg_scim_token", true, none⟩], samlConfigs := [] }
  scanners := [⟨"dg_key", true⟩]
  now := 0

/-- A token that the gateway takes for a JWT. -/
def sampleParse (token : Text) : Option DGraphClaims := if token = "jwt".toList then some .empty else none

theorem sampleParse_lib : JwtLibraries sampleApi.env sampleParse fun _ => some "HS256" where
  hmac _ _ _ := ⟨"HS256", .head _, rfl⟩
  asymmetric _ _ _ _ h := by cases h

/-- A SCIM client lists the users of its tenant. -/
def listUsers : Request where
  remoteAddr := ⟨"10.0.0.1".toList, 40000⟩
  path := Api.scimRoute "t1".toList "Users".toList
  headers := fun name => if name = "Authorization".toList then ["Bearer dg_scim_token".toList] else []

theorem listUsers_not_forwarded : ¬ ∀ api parse alg, JwtLibraries (Api.env api) parse alg →
    ∀ r, api.Authenticates r → (serve parse true r).IsForwarded := by
  intro h
  have hscim : sampleApi.Scim listUsers := ⟨"t1".toList, "Users".toList, rfl, "t1", _, rfl⟩
  have hanswer : serve sampleParse true listUsers = .refused 401 "Invalid or expired token" none := by
    rfl
  have hforwarded := h sampleApi sampleParse _ sampleParse_lib listUsers (.inr (.inr (.inl hscim)))
  rw [hanswer] at hforwarded
  exact hforwarded

/-- A scanner that sends a JWT along with its key. -/
def scannerCall : Request where
  remoteAddr := ⟨"10.0.0.1".toList, 40000⟩
  path := "/api/scanner/jobs".toList
  headers := fun name =>
    if name = "X-Scanner-Key".toList then ["dg_key".toList]
    else if name = "Authorization".toList then ["Bearer jwt".toList] else []

theorem scannerCall_forwarded : (serve sampleParse true scannerCall).IsForwarded := by
  have hscanner : sampleApi.Scanner scannerCall := .inl ⟨by decide +kernel, by decide +kernel⟩
  have hcarries : CarriesJwt sampleParse scannerCall := ⟨"jwt".toList, by decide +kernel, by decide +kernel⟩
  exact ((isForwarded_iff sampleParse_lib scannerCall).2.2.2 hscanner).2 hcarries

end Dgraphai.Gateway
