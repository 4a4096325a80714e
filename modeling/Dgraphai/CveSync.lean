import Dgraphai.Lib.GraphPath
import Mathlib.Data.List.Infix

/-!
# Vulnerabilities in the graph of a tenant (`tasks/cve_sync.py`)

`linkCvesToTenant` is `_link_cves_to_tenant`: for each vulnerability a node of the tenant, and relationships from
the applications whose name contains the product of one of its CPE names. A statement that raises is passed over;
its effect is lost. Both statements name `tenant_id`, so `query` sends them as they are.
-/

namespace Dgraphai.CveSync

open PropertyGraph (Graph Node Props)

/-- An entry of the list of `_fetch_nvd_cves`. -/
structure Cve where
  cveID : Json
  cvssScore : Json
  cvssSeverity : Json
  description : Json
  publishedDate : Json
  cpeMatches : List Json
  exploitAvailable : Bool
  activelyExploited : Bool

/-- Lower case as Python and as the database has it. -/
structure Env where
  lower : String → String
  toLower : String → String

/-- What the database answers in one run for a tenant. -/
structure Outcome where
  /-- `get_backend_for_tenant` knows the backend of the tenant, and it connects. -/
  connects : Bool
  /-- `uuid.uuid4()` for the i-th vulnerability. -/
  vid : Nat → String
  /-- The statement for the i-th vulnerability goes through. -/
  merged : Nat → Bool
  /-- The statement for the j-th CPE name of the i-th vulnerability goes through. -/
  linked : Nat → Nat → Bool

variable (E : Env)

/-- The product of a CPE name, where there is one to look for. -/
def product? (cpe : String) : Option String :=
  (cpe.toList.splitOn ':')[4]?.bind fun part =>
    let product := E.lower (String.ofList (part.map fun c => if c = '_' then ' ' else c))
    if product = "" ∨ product = "*" then none else some product

/-- `merge_vuln`; `none` raises. -/
def mergeVuln (tid vid : String) (cve : Cve) (accepted : Bool) (g : Graph) : Option Graph :=
  if cve.cveID = .null ∨ accepted = false then none
  else some (g.merge "Vulnerability" [("cve_id", cve.cveID), ("tenant_id", .str tid)]
    (fun v =>
      (((((((v.set "id" (.str vid)).set "cvss_score" cve.cvssScore).set "cvss_severity" cve.cvssSeverity).set
        "description" cve.description).set "published_date" cve.publishedDate).set
        "exploit_available" (.bool cve.exploitAvailable)).set "actively_exploited" (.bool cve.activelyExploited)).set
        "tenant_id" (.str tid))
    fun v => ((v.set "cvss_score" cve.cvssScore).set "cvss_severity" cve.cvssSeverity).set "description" cve.description)

/-- `toLower(a.name) CONTAINS $product`. -/
def named (product : String) (a : Node) : Bool :=
  match a.props "name" with
  | some (.str name) => decide (product.toList <:+: (E.toLower name).toList)
  | _ => false

/-- `toLower(a.name)` has a value, or is null. -/
def hasLower (a : Node) : Bool :=
  match a.props "name" with
  | none | some (.str _) => true
  | _ => false

/-- `link_cypher` with the count it returns; `none` raises. -/
def link (tid product : String) (cveID : Json) (accepted : Bool) (g : Graph) : Option (Graph × Nat) :=
  let applications := g.matched (some "Application") [("tenant_id", .str tid)]
  if applications.all hasLower = false ∨ accepted = false then none
  else
    let as := applications.filter (named E product)
    let vs := g.matched (some "Vulnerability") [("cve_id", cveID), ("tenant_id", .str tid)]
    some (g.mergeBetween "HAS_VULNERABILITY" as vs, as.length * vs.length)

/-- A loop is over, or it ended in an exception. -/
structure Progress where
  graph : Graph
  linked : Nat
  raised : Bool

/-- The loop over CPE names, from the j-th on. A name that is no text has no `split`. -/
def linkMatches (tid : String) (cveID : Json) (accepted : Nat → Bool) : Nat → List Json → Graph → Nat → Progress
  | _, [], g, linked => ⟨g, linked, false⟩
  | j, cpe :: rest, g, linked =>
    match cpe with
    | .str cpe =>
      match (product? E cpe).bind fun product => link E tid product cveID (accepted j) g with
      | some (g', n) => linkMatches tid cveID accepted (j + 1) rest g' (linked + n)
      | none => linkMatches tid cveID accepted (j + 1) rest g linked
    | _ => ⟨g, linked, true⟩

/-- The loop over vulnerabilities, from the i-th on. -/
def linkCves (tid : String) (O : Outcome) : Nat → List Cve → Graph → Nat → Progress
  | _, [], g, linked => ⟨g, linked, false⟩
  | i, cve :: rest, g, linked =>
    match mergeVuln tid (O.vid i) cve (O.merged i) g with
    | none => linkCves tid O (i + 1) rest g linked
    | some g₁ =>
      let p := linkMatches E tid cve.cveID (O.linked i) 0 (cve.cpeMatches.take 10) g₁ linked
      if p.raised then p else linkCves tid O (i + 1) rest p.graph p.linked

/-- `_link_cves_to_tenant`, with the number it logs. -/
def linkCvesToTenant (cves : List Cve) (tid : String) (O : Outcome) (g : Graph) : Progress :=
  if O.connects = false then ⟨g, 0, true⟩ else linkCves E tid O 0 cves g 0

/-! ### What a run keeps -/

variable {E} {P : Graph → Prop} {tid : String} {O : Outcome}

theorem inv_linkMatches {cveID : Json} (accepted : Nat → Bool)
    (hlink : ∀ g product ok g' n, P g → link E tid product cveID ok g = some (g', n) → P g')
    (cpes : List Json) (j : Nat) {g : Graph} (hg : P g) (linked : Nat) :
    P (linkMatches E tid cveID accepted j cpes g linked).graph := by
  induction cpes generalizing j g linked with
  | nil => exact hg
  | cons cpe rest ih =>
    unfold linkMatches
    cases cpe with
    | str cpe =>
      dsimp only
      cases hp : (product? E cpe).bind fun product => link E tid product cveID (accepted j) g with
      | none => exact ih (j + 1) hg linked
      | some r =>
        obtain ⟨product, -, hr⟩ := Option.bind_eq_some_iff.1 hp
        exact ih (j + 1) (hlink g product (accepted j) r.1 r.2 hg hr) (linked + r.2)
    | _ => exact hg

/-- What the two statements keep, a run keeps. -/
theorem inv_linkCvesToTenant (hmerge : ∀ g cve vid ok g', P g → mergeVuln tid vid cve ok g = some g' → P g')
    (hlink : ∀ g product cveID ok g' n, P g → link E tid product cveID ok g = some (g', n) → P g')
    (cves : List Cve) {g : Graph} (hg : P g) : P (linkCvesToTenant E cves tid O g).graph := by
  have hloop : ∀ (cves : List Cve) (i : Nat) (g : Graph) (linked : Nat), P g → P (linkCves E tid O i cves g linked).graph := by
    intro cves
    induction cves with
    | nil => exact fun i g linked hg => hg
    | cons cve rest ih =>
      intro i g linked hg
      unfold linkCves
      cases hm : mergeVuln tid (O.vid i) cve (O.merged i) g with
      | none => exact ih (i + 1) g linked hg
      | some g₁ =>
        have hcpes := inv_linkMatches (O.linked i) (fun g product => hlink g product cve.cveID)
          (cve.cpeMatches.take 10) 0 (hmerge g cve _ _ g₁ hg hm) linked
        dsimp only
        split_ifs
        · exact hcpes
        · exact ih (i + 1) _ _ hcpes
  unfold linkCvesToTenant
  split_ifs
  · exact hg
  · exact hloop cves 0 g 0 hg

end Dgraphai.CveSync
