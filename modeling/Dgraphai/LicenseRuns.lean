import Dgraphai.Lib.Runs
import Dgraphai.LicenseFiles

/-!
# The license of a process (`licensing/license.py`)

`load_license` verifies what it finds, once; `get_license` keeps it, and `require_feature` asks the license kept for
the feature, not for the time. What it lets through is licensed exactly as long as no call comes after the license
kept has run out (`licensed_always_iff`).
-/

namespace Dgraphai.Licensing

open Json Runs

variable {PrivateKey PublicKey : Type} (P : Platform PrivateKey PublicKey) (trusted : List String)

/-- What a call of `load_license` finds. -/
structure World where
  /-- `os.getenv`. -/
  getenv : String → Option String
  /-- `Path(path).read_text()`. -/
  readText : String → Option String
  exists? : String → Bool
  /-- `Path.home()`. -/
  home : Option String
  /-- `get_hardware_fingerprint()`. -/
  fingerprint : String
  /-- `datetime.now(timezone.utc)`. -/
  now : PyDateTime

/-- `_developer_license`. -/
def developerLicense (now : PyDateTime) : License where
  licenseId := .str "dev-local-00000000-0000-0000-0000-000000000000"
  issuedTo := .str "Developer (local)"
  issuedToEmail := .str "dev@localhost"
  licenseType := .developer
  issuedAt := now
  expiresAt := none
  gracePeriodDays := .num 0
  hardwareFingerprint := .null
  features := {
    aiTrainingExport := .bool true
    customRoles := .bool true }
  limits := {
    maxTenants := .num 1
    maxUsers := .num 5
    maxConnectors := .num 2
    maxNodes := .num 100000
    maxExports := .num 10 }
  metadata := .obj [("dev_mode", .bool true)]

namespace World
variable (w : World)

def verify (licenseB64 : String) : Except Failure License :=
  verifyLicense P trusted w.fingerprint w.now.instant licenseB64

/-- The file at the path, verified. -/
def verifyFile (path : String) : Except Failure License :=
  match w.readText path with
  | some content => w.verify P trusted (strip content)
  | none => .error .raised

/-- `os.getenv(name)`, where it is set and not empty. -/
def getenv? (name : String) : Option String := (w.getenv name).filter (· ≠ "")

def loadLicense : Except Failure License :=
  match w.getenv? "DGRAPHAI_LICENSE" with
  | some licenseB64 => w.verify P trusted licenseB64
  | none =>
    match w.getenv? "DGRAPHAI_LICENSE_FILE" with
    | some path => w.verifyFile P trusted path
    | none =>
      match w.home with
      | none => .error .raised
      | some home =>
        match ["/etc/dgraphai/license.dglicense", home ++ "/.dgraphai/license.dglicense"].find? w.exists? with
        | some path => w.verifyFile P trusted path
        | none => .ok (developerLicense w.now)

end World

/-- `bool(getattr(self.features, feature, False))`; `others` says which attributes of the object besides its fields
are truthy. -/
def License.checkFeature (others : String → Bool) (L : License) (feature : String) : Bool :=
  match field? L.features.toFields feature with
  | some j => j.truthy P.isZero
  | none => others feature

/-- A feature that `require_feature` has let through. -/
structure Grant where
  license : License
  feature : String
  now : ℤ

structure Process where
  /-- `_current_license`. -/
  current : Option License
  granted : List Grant

inductive Call where
  | getLicense (w : World)
  | requireFeature (w : World) (feature : String)

def Call.now : Call → ℤ
  | .getLicense w | .requireFeature w _ => w.now.instant

namespace Process
variable (others : String → Bool) (s : Process)

/-- `get_license`. -/
def getLicense (w : World) : Except Failure License :=
  match s.current with
  | some L => .ok L
  | none => w.loadLicense P trusted

def featureText (L : License) (feature : String) : String :=
  "Feature '" ++ feature ++ "' is not available in your " ++ L.licenseType.text ++
    " license. Contact sales@dgraph.ai to upgrade."

/-- `require_feature`. -/
def requireFeature (w : World) (feature : String) : Except Failure License :=
  (s.getLicense P trusted w).bind fun L =>
    if L.checkFeature P others feature then .ok L else .error (.license (featureText L feature))

/-- The process after a call. A license that was loaded is kept. -/
def step : Call → Process
  | .getLicense w => { s with current := (s.getLicense P trusted w).toOption }
  | .requireFeature w feature =>
    { current := (s.getLicense P trusted w).toOption
      granted := match s.requireFeature P trusted others w feature with
        | .ok L => s.granted ++ [⟨L, feature, w.now.instant⟩]
        | .error _ => s.granted }

end Process

/-! ### Licensed features -/

/-- The license has the feature. -/
def Enables (L : License) (feature : String) : Prop :=
  ∃ j, (feature, j) ∈ L.features.toFields ∧ j.truthy P.isZero = true

/-- No expiry, or `now <= expires_at + grace_period_days`. -/
def ValidAt (L : License) (now : ℤ) : Prop :=
  ∀ expires ∈ L.expiresAt, ∃ grace, timedeltaDays P L.gracePeriodDays = some grace ∧ now ≤ expires.instant + grace

/-- What was let through was in the license, and the license was valid then. -/
def Process.Licensed (s : Process) : Prop := ∀ g ∈ s.granted, Enables P g.license g.feature ∧ ValidAt P g.license g.now

/-- The call is for no other attribute, and it does not come too late for the license kept; where it loads one, the
grace period is not negative or the call does not come too late either. -/
def Process.Timely (others : String → Bool) (s : Process) : Call → Prop
  | .getLicense _ => True
  | .requireFeature w feature =>
    ∀ L, s.getLicense P trusted w = .ok L → L.checkFeature P others feature = true →
      feature ∈ LicenseFeatures.names ∧
        (ValidAt P L w.now.instant ∨ s.current = none ∧ ∀ grace, timedeltaDays P L.gracePeriodDays = some grace → 0 ≤ grace)

variable {P trusted} {others : String → Bool} {s : Process} {w : World} {L L' : License} {now : ℤ} {feature : String}

/-- A license that passes the check is in its term, or in its grace period. -/
theorem term_of_isValid (h : L.isValid P now = some true) {expires : PyDateTime} (he : L.expiresAt = some expires) :
    ∃ grace, timedeltaDays P L.gracePeriodDays = some grace ∧ (now ≤ expires.instant ∨ now ≤ expires.instant + grace) := by
  rw [License.isValid, he] at h
  obtain ⟨inGrace, hgrace, hor⟩ := Option.map_eq_some_iff.1 h
  rw [License.isInGracePeriod, he] at hgrace
  obtain ⟨graceEnd, hend, rfl⟩ := Option.map_eq_some_iff.1 hgrace
  obtain ⟨grace, hdelta, hafter⟩ := Option.bind_eq_some_iff.1 hend
  refine ⟨grace, hdelta, ?_⟩
  rw [PyDateTime.instantAfter] at hafter
  split_ifs at hafter
  obtain rfl := Option.some.inj hafter
  rw [Bool.or_eq_true, decide_eq_true_iff, License.isExpired, he, Bool.not_eq_true', decide_eq_false_iff_not] at hor
  omega

/-- A license that was loaded is valid then, or it is the developer license. -/
theorem isValid_of_loadLicense (h : w.loadLicense P trusted = .ok L) : L.isValid P w.now.instant = some true := by
  have hverify : ∀ {licenseB64 : String}, w.verify P trusted licenseB64 = .ok L → L.isValid P w.now.instant = some true :=
    fun h => (verifyLicense_eq_ok h).elim fun _ h => h.elim fun _ h => h.2.2.2
  have hfile : ∀ {path : String}, w.verifyFile P trusted path = .ok L → L.isValid P w.now.instant = some true := by
    intro path hpath
    rw [World.verifyFile] at hpath
    split at hpath
    · exact hverify hpath
    · cases hpath
  rw [World.loadLicense] at h
  split at h
  · exact hverify h
  split at h
  · exact hfile h
  split at h
  · cases h
  split at h
  · exact hfile h
  · cases h
    rfl

theorem validAt_of_loadLicense (h : w.loadLicense P trusted = .ok L)
    (hgrace : ∀ grace, timedeltaDays P L.gracePeriodDays = some grace → 0 ≤ grace) : ValidAt P L w.now.instant := by
  intro expires he
  obtain ⟨grace, hdelta, hterm⟩ := term_of_isValid (isValid_of_loadLicense h) he
  have hnonneg := hgrace grace hdelta
  exact ⟨grace, hdelta, by omega⟩

theorem keys_nodup (f : LicenseFeatures) : (f.toFields.map (·.1)).Nodup := by
  show LicenseFeatures.names.Nodup
  decide

theorem enables_iff (others : String → Bool) :
    Enables P L feature ↔ feature ∈ LicenseFeatures.names ∧ L.checkFeature P others feature = true := by
  have hnames : feature ∈ LicenseFeatures.names ↔ ∃ j, (feature, j) ∈ L.features.toFields := by
    show feature ∈ L.features.toFields.map (·.1) ↔ _
    rw [List.mem_map]
    constructor
    · rintro ⟨⟨k, j⟩, hmem, rfl⟩
      exact ⟨j, hmem⟩
    · rintro ⟨j, hmem⟩
      exact ⟨(feature, j), hmem, rfl⟩
  rw [hnames, License.checkFeature]
  constructor
  · rintro ⟨j, hmem, htruthy⟩
    rw [(field?_eq_some_iff (keys_nodup _)).2 hmem]
    exact ⟨⟨j, hmem⟩, htruthy⟩
  · rintro ⟨⟨j, hmem⟩, hcheck⟩
    rw [(field?_eq_some_iff (keys_nodup _)).2 hmem] at hcheck
    exact ⟨j, hmem, hcheck⟩

theorem requireFeature_eq_ok : s.requireFeature P trusted others w feature = .ok L ↔
    s.getLicense P trusted w = .ok L ∧ L.checkFeature P others feature = true := by
  rw [Process.requireFeature]
  cases s.getLicense P trusted w with
  | error e => exact iff_of_false (fun h => by cases h) (fun h => by cases h.1)
  | ok L₀ =>
    show (if L₀.checkFeature P others feature then Except.ok L₀ else _) = _ ↔ _
    split_ifs with hcheck
    · rw [Except.ok.injEq]
      constructor
      · rintro rfl
        exact ⟨rfl, hcheck⟩
      · exact fun h => h.1
    · refine iff_of_false (fun h => by cases h) ?_
      rintro ⟨h, hL⟩
      rw [Except.ok.inj h] at hcheck
      exact hcheck hL

/-- What one call adds is licensed exactly if the call is timely. -/
theorem licensed_step_iff (call : Call) (h : s.Licensed P) :
    (s.step P trusted others call).Licensed P ↔ s.Timely P trusted others call := by
  cases call with
  | getLicense w => exact iff_of_true h trivial
  | requireFeature w feature =>
    have hgrant : ∀ L, s.getLicense P trusted w = .ok L → L.checkFeature P others feature = true →
        (Enables P L feature ∧ ValidAt P L w.now.instant ↔ feature ∈ LicenseFeatures.names ∧
          (ValidAt P L w.now.instant ∨
            s.current = none ∧ ∀ grace, timedeltaDays P L.gracePeriodDays = some grace → 0 ≤ grace)) := by
      intro L hget hcheck
      rw [enables_iff others, and_iff_left hcheck]
      refine and_congr_right fun _ => ⟨.inl, ?_⟩
      rintro (hvalid | ⟨hnone, hgrace⟩)
      · exact hvalid
      · rw [Process.getLicense, hnone] at hget
        exact validAt_of_loadLicense hget hgrace
    cases hrequire : s.requireFeature P trusted others w feature with
    | error e =>
      have hgranted : (s.step P trusted others (.requireFeature w feature)).granted = s.granted := by
        rw [Process.step, hrequire]
      refine iff_of_true ?_ fun L hget hcheck => ?_
      · rw [Process.Licensed, hgranted]
        exact h
      · rw [requireFeature_eq_ok.2 ⟨hget, hcheck⟩] at hrequire
        cases hrequire
    | ok L =>
      obtain ⟨hget, hcheck⟩ := requireFeature_eq_ok.1 hrequire
      have hgranted : (s.step P trusted others (.requireFeature w feature)).granted =
          s.granted ++ [⟨L, feature, w.now.instant⟩] := by
        rw [Process.step, hrequire]
      rw [Process.Licensed, hgranted, List.forall_mem_append, List.forall_mem_singleton]
      refine (and_iff_right h).trans ((hgrant L hget hcheck).trans ?_)
      constructor
      · intro hL L' hget' _
        obtain rfl := Except.ok.inj (hget.symm.trans hget')
        exact hL
      · exact fun ht => ht L hget hcheck

/-- In every run of a process, whatever was let through was licensed when it was exactly if every call is timely. -/
theorem licensed_always_iff (calls : List Call) :
    Always (fun s call => some (Process.step P trusted others s call)) (Process.Licensed P) ⟨none, []⟩ calls ↔
      Along (fun s call => some (Process.step P trusted others s call)) (Process.Timely P trusted others) ⟨none, []⟩
        calls := by
  refine always_iff_along (fun _ _ _ _ _ => trivial) (fun s call s' _ hs hs' => ?_) trivial
    fun g hg => absurd hg List.not_mem_nil
  obtain rfl := Option.some.inj hs'
  exact licensed_step_iff call hs

/-! ### A license kept past its end -/

def acmeText : String :=
  fileText acmePlatform (payloadBytes acmePlatform acme) (acmePlatform.sign () (payloadBytes acmePlatform acme))

/-- A process with the license in its environment, on a New Year's Day. -/
def acmeWorld (now : PyDateTime) : World where
  getenv name := if name = "DGRAPHAI_LICENSE" then some acmeText else none
  readText _ := none
  exists? _ := false
  home := none
  fingerprint := ""
  now := now

theorem acme_loadLicense :
    (acmeWorld (newYear 2026 (by decide))).loadLicense acmePlatform [acmePublicPem] = .ok acme.sorted := by
  have hverify : verifyLicense acmePlatform [acmePublicPem] "" (newYear 2026 (by decide)).instant acmeText =
      .ok acme.sorted :=
    verifyLicense_fileText acmePlatform_laws acme_trusted acme_representable acme_isValid fun h => absurd h (by decide)
  have hne : acmeText ≠ "" := by
    intro hempty
    rw [hempty] at hverify
    cases hverify
  have hgetenv : (acmeWorld (newYear 2026 (by decide))).getenv? "DGRAPHAI_LICENSE" = some acmeText := by
    show (some acmeText).filter (· ≠ "") = _
    rw [Option.filter_some, if_pos (decide_eq_true hne)]
  rw [World.loadLicense, hgetenv]
  exact hverify

/-- The license of 2026 still has its features in 2028. -/
theorem acme_outlived : ¬ ∀ calls : List Call, (calls.map Call.now).Pairwise (· ≤ ·) →
    Always (fun s call => some (Process.step acmePlatform [acmePublicPem] (fun _ => false) s call))
      (Process.Licensed acmePlatform) ⟨none, []⟩ calls := by
  intro h
  let w := acmeWorld (newYear 2026 (by decide))
  let w' := acmeWorld (newYear 2028 (by decide))
  have hcheck : acme.sorted.checkFeature acmePlatform (fun _ => false) "api_access" = true := by decide
  have hload : Process.getLicense acmePlatform [acmePublicPem] ⟨none, []⟩ w = .ok acme.sorted := acme_loadLicense
  have hfirst : Process.step acmePlatform [acmePublicPem] (fun _ => false) ⟨none, []⟩ (.getLicense w) =
      ⟨some acme.sorted, []⟩ := by
    rw [Process.step, hload]
    rfl
  have hkept : Process.requireFeature acmePlatform [acmePublicPem] (fun _ => false) ⟨some acme.sorted, []⟩ w'
      "api_access" = .ok acme.sorted := requireFeature_eq_ok.2 ⟨rfl, hcheck⟩
  have hlicensed := h [.getLicense w, .requireFeature w' "api_access"] (by decide +kernel) _ _ (List.prefix_refl _)
    (run_cons.2 ⟨_, rfl, run_cons.2 ⟨_, rfl, rfl⟩⟩)
  rw [hfirst, Process.step, hkept] at hlicensed
  obtain ⟨-, hvalid⟩ := hlicensed _ List.mem_cons_self
  obtain ⟨grace, hgrace, hnow⟩ := hvalid (newYear 2027 (by decide)) rfl
  obtain rfl : 14 * PyDateTime.dayMicros = grace := Option.some.inj hgrace
  exact absurd hnow (by decide +kernel)

end Dgraphai.Licensing
