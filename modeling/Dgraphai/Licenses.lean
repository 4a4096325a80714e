import Dgraphai.Lib.PyDateTime
import Dgraphai.Lib.PyJson
import Dgraphai.Lib.PyText

/-!
# Licenses (`licensing/license.py`)

A license, its payload, and the file that carries the payload with its signature. What the code takes from outside
(JSON, base64, the texts of datetimes, Ed25519) is a `Platform`.
-/

namespace Dgraphai.Licensing

open Json

inductive LicenseType where
  | saas | selfHosted | airGapped | trial | developer
  deriving DecidableEq, Repr

namespace LicenseType

def value : LicenseType → String
  | .saas => "saas"
  | .selfHosted => "self-hosted"
  | .airGapped => "air-gapped"
  | .trial => "trial"
  | .developer => "developer"

/-- `str` of the member, and what an f-string shows. -/
def text : LicenseType → String
  | .saas => "LicenseType.SAAS"
  | .selfHosted => "LicenseType.SELF_HOSTED"
  | .airGapped => "LicenseType.AIR_GAPPED"
  | .trial => "LicenseType.TRIAL"
  | .developer => "LicenseType.DEVELOPER"

def all : List LicenseType := [.saas, .selfHosted, .airGapped, .trial, .developer]

/-- `LicenseType(value)`; `none` for the `ValueError`. -/
def ofValue? (j : Json) : Option LicenseType := all.find? fun t => j = .str t.value

theorem ofValue?_value (t : LicenseType) : ofValue? (.str t.value) = some t := by
  cases t <;> decide

end LicenseType

/-- A dataclass does not check the types of its fields. -/
structure LicenseFeatures where
  graphVisualization : Json := .bool true
  savedQueries : Json := .bool true
  approvalWorkflows : Json := .bool true
  scannerAgents : Json := .num 1
  aiTrainingExport : Json := .bool false
  ssoOidc : Json := .bool false
  customRoles : Json := .bool false
  auditLogStream : Json := .bool false
  apiAccess : Json := .bool true
  complianceReports : Json := .bool false
  deriving DecidableEq, Repr

structure LicenseLimits where
  maxTenants : Json := .num 1
  maxUsers : Json := .num 10
  maxConnectors : Json := .num 3
  maxNodes : Json := .num 500000
  maxExports : Json := .num 10
  deriving DecidableEq, Repr

structure License where
  licenseId : Json
  issuedTo : Json
  issuedToEmail : Json
  licenseType : LicenseType
  issuedAt : PyDateTime
  expiresAt : Option PyDateTime
  gracePeriodDays : Json
  hardwareFingerprint : Json
  features : LicenseFeatures
  limits : LicenseLimits
  metadata : Json
  deriving DecidableEq

abbrev Bytes := List UInt8

/-- What is not in the repository: `json`, `base64`, `datetime` texts, `float`, and `cryptography`. -/
structure Platform (PrivateKey PublicKey : Type) where
  /-- `json.loads`. -/
  loads : Bytes → Option Json
  /-- `json.dumps(j).encode()`. -/
  dumps : Json → Bytes
  /-- `json.dumps(j, sort_keys=True, separators=(",", ":")).encode()`. -/
  dumpsSorted : Json → Bytes
  /-- `base64.b64encode(b).decode()`. -/
  b64encode : Bytes → String
  b64decode : String → Option Bytes
  isoformat : PyDateTime → String
  fromisoformat : String → Option PyDateTime
  /-- `float(text) == 0`. -/
  isZero : String → Bool
  /-- The microseconds of `timedelta(days=float(text))`; `none` where it raises. -/
  floatDays : String → Option ℤ
  loadPemPrivateKey : String → Option PrivateKey
  loadPemPublicKey : String → Option PublicKey
  publicKey : PrivateKey → PublicKey
  sign : PrivateKey → Bytes → Bytes
  /-- `public_key.verify(signature, data)` returns. -/
  verify : PublicKey → Bytes → Bytes → Bool

/-! ### Validity -/

section Validity
variable {PrivateKey PublicKey : Type} (P : Platform PrivateKey PublicKey) (L : License) (now : ℤ)

def License.isExpired : Bool :=
  match L.expiresAt with
  | none => false
  | some expires => decide (expires.instant < now)

/-- `timedelta(days=j)`, in microseconds. -/
def timedeltaDays : Json → Option ℤ
  | .num n => if n.natAbs ≤ 999999999 then some (n * PyDateTime.dayMicros) else none
  | .bool b => some (if b then PyDateTime.dayMicros else 0)
  | .real text => P.floatDays text
  | _ => none

/-- The end of the grace period; `none` where `timedelta` or the sum raises. -/
def License.graceEnd (expires : PyDateTime) : Option ℤ := (timedeltaDays P L.gracePeriodDays).bind expires.instantAfter

/-- `is_in_grace_period`; `none` where it raises. -/
def License.isInGracePeriod : Option Bool :=
  match L.expiresAt with
  | none => some false
  | some expires => (L.graceEnd P expires).map fun graceEnd => decide (expires.instant < now ∧ now ≤ graceEnd)

def License.isValid : Option Bool :=
  match L.expiresAt with
  | none => some true
  | some _ => (L.isInGracePeriod P now).map fun inGrace => inGrace || !L.isExpired now

end Validity

/-! ### Payloads -/

namespace LicenseFeatures

/-- The fields of the features, as `_license_to_payload` names them. -/
def toFields (f : LicenseFeatures) : Fields :=
  [("graph_visualization", f.graphVisualization), ("saved_queries", f.savedQueries),
    ("approval_workflows", f.approvalWorkflows), ("scanner_agents", f.scannerAgents),
    ("ai_training_export", f.aiTrainingExport), ("sso_oidc", f.ssoOidc), ("custom_roles", f.customRoles),
    ("audit_log_stream", f.auditLogStream), ("api_access", f.apiAccess), ("compliance_reports", f.complianceReports)]

def names : List String := (toFields {}).map (·.1)

/-- `LicenseFeatures(**kwargs)`; `none` where an argument is unexpected. -/
def ofKwargs (kwargs : Fields) : Option LicenseFeatures :=
  if kwargs.all fun kw => names.contains kw.1 then
    some {
      graphVisualization := getD kwargs "graph_visualization" (.bool true)
      savedQueries := getD kwargs "saved_queries" (.bool true)
      approvalWorkflows := getD kwargs "approval_workflows" (.bool true)
      scannerAgents := getD kwargs "scanner_agents" (.num 1)
      aiTrainingExport := getD kwargs "ai_training_export" (.bool false)
      ssoOidc := getD kwargs "sso_oidc" (.bool false)
      customRoles := getD kwargs "custom_roles" (.bool false)
      auditLogStream := getD kwargs "audit_log_stream" (.bool false)
      apiAccess := getD kwargs "api_access" (.bool true)
      complianceReports := getD kwargs "compliance_reports" (.bool false) }
  else none

end LicenseFeatures

namespace LicenseLimits

def toFields (l : LicenseLimits) : Fields :=
  [("max_tenants", l.maxTenants), ("max_users", l.maxUsers), ("max_connectors", l.maxConnectors),
    ("max_nodes", l.maxNodes), ("max_exports", l.maxExports)]

def names : List String := (toFields {}).map (·.1)

/-- `LicenseLimits(**kwargs)`. -/
def ofKwargs (kwargs : Fields) : Option LicenseLimits :=
  if kwargs.all fun kw => names.contains kw.1 then
    some {
      maxTenants := getD kwargs "max_tenants" (.num 1)
      maxUsers := getD kwargs "max_users" (.num 10)
      maxConnectors := getD kwargs "max_connectors" (.num 3)
      maxNodes := getD kwargs "max_nodes" (.num 500000)
      maxExports := getD kwargs "max_exports" (.num 10) }
  else none

end LicenseLimits

section Payload
variable {PrivateKey PublicKey : Type} (P : Platform PrivateKey PublicKey)

/-- `_license_to_payload`. -/
def licenseToPayload (L : License) : Fields :=
  [("license_id", L.licenseId), ("issued_to", L.issuedTo), ("issued_to_email", L.issuedToEmail),
    ("license_type", .str L.licenseType.value), ("issued_at", .str (P.isoformat L.issuedAt)),
    ("expires_at", match L.expiresAt with
      | some expires => .str (P.isoformat expires)
      | none => .null),
    ("grace_period_days", L.gracePeriodDays), ("hardware_fingerprint", L.hardwareFingerprint),
    ("features", .obj L.features.toFields), ("limits", .obj L.limits.toFields), ("metadata", L.metadata)]

/-- `datetime.fromisoformat(j)`. -/
def fromisoformat? (j : Json) : Option PyDateTime :=
  match j with
  | .str text => P.fromisoformat text
  | _ => none

/-- `datetime.fromisoformat(payload["expires_at"]) if payload.get("expires_at") else None`. -/
def expiresAt? (payload : Fields) : Option (Option PyDateTime) :=
  let j := getD payload "expires_at" .null
  if j.truthy P.isZero then (fromisoformat? P j).map some else some none

/-- `_payload_to_license`; `none` where it raises. -/
def payloadToLicense (payload : Json) : Option License := do
  let payload ← payload.asDict
  let features ← (getD payload "features" (.obj [])).asDict
  let features ← LicenseFeatures.ofKwargs features
  let limits ← (getD payload "limits" (.obj [])).asDict
  let limits ← LicenseLimits.ofKwargs limits
  let licenseId ← field? payload "license_id"
  let issuedTo ← field? payload "issued_to"
  let issuedToEmail ← field? payload "issued_to_email"
  let licenseType ← (field? payload "license_type").bind LicenseType.ofValue?
  let issuedAt ← (field? payload "issued_at").bind (fromisoformat? P)
  let expiresAt ← expiresAt? P payload
  some {
    licenseId := licenseId
    issuedTo := issuedTo
    issuedToEmail := issuedToEmail
    licenseType := licenseType
    issuedAt := issuedAt
    expiresAt := expiresAt
    gracePeriodDays := getD payload "grace_period_days" (.num 14)
    hardwareFingerprint := getD payload "hardware_fingerprint" .null
    features := features
    limits := limits
    metadata := getD payload "metadata" (.obj []) }

end Payload

/-! ### Files -/

section Files
variable {PrivateKey PublicKey : Type} (P : Platform PrivateKey PublicKey)

/-- `s.strip()`, of ASCII text. -/
def strip (s : String) : String := String.ofList (PyText.strip s.toList)

/-- The text of a license file around payload and signature. -/
def fileText (payload signature : Bytes) : String :=
  P.b64encode (P.dumps (.obj [("version", .str "1"), ("payload", .str (P.b64encode payload)),
    ("signature", .str (P.b64encode signature))]))

def payloadBytes (L : License) : Bytes := P.dumpsSorted (.obj (licenseToPayload P L))

/-- `sign_license`; `none` where the key does not load. -/
def signLicense (L : License) (privateKeyPem : String) : Option String :=
  (P.loadPemPrivateKey privateKeyPem).map fun key => fileText P (payloadBytes P L) (P.sign key (payloadBytes P L))

/-- `base64.b64decode(file[name])`. -/
def fileBytes (file : Json) (name : String) : Option Bytes :=
  match file.asDict.bind (field? · name) with
  | some (.str text) => P.b64decode text
  | _ => none

/-- Payload and signature of a license file. -/
def readFile (licenseB64 : String) : Option (Bytes × Bytes) := do
  let file ← (P.b64decode licenseB64).bind P.loads
  let payload ← fileBytes P file "payload"
  let signature ← fileBytes P file "signature"
  some (payload, signature)

/-- One of the trusted keys has signed the payload. -/
def isSigned (trustedPublicKeysPem : List String) (payload signature : Bytes) : Bool :=
  trustedPublicKeysPem.any fun pem =>
    match P.loadPemPublicKey (strip pem) with
    | some key => P.verify key signature payload
    | none => false

inductive Failure where
  /-- `Invalid license file format: ` and the text of an exception. -/
  | format
  /-- A `LicenseError` with its text. -/
  | license (text : String)
  /-- Any other exception. -/
  | raised
  deriving DecidableEq, Repr

def signatureText : String :=
  "License signature verification failed — license may be tampered or from an unknown issuer"

def machineText : String :=
  "License is bound to a different machine. Contact support@dgraph.ai to transfer your license."

/-- `f"{n}"` of the grace period, as far as it is a number. -/
def daysText : Json → String
  | .num n => toString n
  | .bool b => if b then "True" else "False"
  | .real text => text
  | _ => ""

def expiredText (L : License) (expires : PyDateTime) : String :=
  "License expired on " ++ String.ofList expires.dateText ++ " (grace period of " ++ daysText L.gracePeriodDays ++
    " days has passed). Contact support@dgraph.ai to renew."

/-- The checks of `verify_license` on a decoded license, on the machine of this fingerprint at this time. -/
def checkLicense (fingerprint : String) (now : ℤ) (L : License) : Except Failure License :=
  if L.hardwareFingerprint.truthy P.isZero = true ∧ L.hardwareFingerprint ≠ .str fingerprint then
    .error (.license machineText)
  else match L.isValid P now with
    | none => .error .raised
    | some true => .ok L
    | some false =>
      match L.expiresAt with
      | some expires =>
        if L.isExpired now = true ∧ L.isInGracePeriod P now = some false then .error (.license (expiredText L expires))
        else .ok L
      | none => .ok L

/-- `verify_license`. -/
def verifyLicense (trustedPublicKeysPem : List String) (fingerprint : String) (now : ℤ) (licenseB64 : String) :
    Except Failure License :=
  match readFile P licenseB64 with
  | none => .error .format
  | some (payload, signature) =>
    if isSigned P trustedPublicKeysPem payload signature then
      match (P.loads payload).bind (payloadToLicense P) with
      | none => .error .raised
      | some L => checkLicense P fingerprint now L
    else .error (.license signatureText)

variable {P} {trusted : List String} {fingerprint licenseB64 : String} {now : ℤ} {L L' : License}

theorem checkLicense_eq_ok (h : checkLicense P fingerprint now L = .ok L') :
    L' = L ∧ L.isValid P now = some true := by
  rw [checkLicense] at h
  split at h
  · cases h
  cases hvalid : L.isValid P now with
  | none =>
    rw [hvalid] at h
    cases h
  | some valid =>
    rw [hvalid] at h
    cases valid with
    | true =>
      cases h
      exact ⟨rfl, rfl⟩
    | false =>
      -- expired and past the grace period: the inner test is met
      rw [License.isValid] at hvalid
      cases hexpires : L.expiresAt with
      | none =>
        rw [hexpires] at hvalid
        cases hvalid
      | some expires =>
        rw [hexpires] at hvalid
        obtain ⟨inGrace, hgrace, heq⟩ := Option.map_eq_some_iff.1 hvalid
        rw [Bool.or_eq_false_iff, Bool.not_eq_false'] at heq
        obtain ⟨rfl, hexpired⟩ := heq
        rw [hexpires] at h
        simp only [hexpired, hgrace, and_self, if_true] at h
        cases h

/-- What is behind a license that was verified. -/
theorem verifyLicense_eq_ok (h : verifyLicense P trusted fingerprint now licenseB64 = .ok L) :
    ∃ payload signature, readFile P licenseB64 = some (payload, signature) ∧
      isSigned P trusted payload signature = true ∧ (P.loads payload).bind (payloadToLicense P) = some L ∧
      L.isValid P now = some true := by
  rw [verifyLicense] at h
  split at h
  case h_1 => cases h
  case h_2 payload signature hread =>
    split_ifs at h with hsigned
    split at h
    case h_1 => cases h
    case h_2 L₀ hdecoded =>
      obtain ⟨rfl, hvalid⟩ := checkLicense_eq_ok h
      exact ⟨payload, signature, hread, hsigned, hdecoded, hvalid⟩

end Files

end Dgraphai.Licensing
