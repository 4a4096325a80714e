/-!
# The inventory taxonomy (`inventory/taxonomy.py`)

The categories with their queries; a category of subtypes lists them under `subcategories`.
-/

namespace Dgraphai.Inventory

structure Category where
  id : String
  cypher : String
  subcategories : List Category

/-! ### Video -/

def video : Category where
  id := "video"
  cypher := "MATCH (f:File) WHERE f.file_category = 'video' AND f.tenant_id = $tid RETURN f"
  subcategories := [
    ⟨"video-mkv",
      "MATCH (f:File) WHERE f.file_category = 'video' AND f.extension = '.mkv' AND f.tenant_id = $tid RETURN f", []⟩,
    ⟨"video-mp4",
      "MATCH (f:File) WHERE f.file_category = 'video' AND f.extension IN ['.mp4','.m4v'] AND f.tenant_id = $tid RETURN f", []⟩,
    ⟨"video-ts",
      "MATCH (f:File) WHERE f.file_category = 'video' AND f.extension IN ['.ts','.m2ts','.mts'] AND f.tenant_id = $tid RETURN f", []⟩,
    ⟨"video-mov",
      "MATCH (f:File) WHERE f.file_category = 'video' AND f.extension = '.mov' AND f.tenant_id = $tid RETURN f", []⟩,
    ⟨"video-avi",
      "MATCH (f:File) WHERE f.file_category = 'video' AND f.extension = '.avi' AND f.tenant_id = $tid RETURN f", []⟩,
    ⟨"video-wmv",
      "MATCH (f:File) WHERE f.file_category = 'video' AND f.extension IN ['.wmv','.asf'] AND f.tenant_id = $tid RETURN f", []⟩,
    ⟨"video-webm",
      "MATCH (f:File) WHERE f.file_category = 'video' AND f.extension IN ['.webm','.flv'] AND f.tenant_id = $tid RETURN f", []⟩]

/-! ### Audio -/

def audio : Category where
  id := "audio"
  cypher := "MATCH (f:File) WHERE f.file_category = 'audio' AND f.tenant_id = $tid RETURN f"
  subcategories := [
    ⟨"audio-flac",
      "MATCH (f:File) WHERE f.file_category = 'audio' AND f.extension = '.flac' AND f.tenant_id = $tid RETURN f", []⟩,
    ⟨"audio-mp3",
      "MATCH (f:File) WHERE f.file_category = 'audio' AND f.extension = '.mp3' AND f.tenant_id = $tid RETURN f", []⟩,
    ⟨"audio-aac",
      "MATCH (f:File) WHERE f.file_category = 'audio' AND f.extension IN ['.aac','.m4a'] AND f.tenant_id = $tid RETURN f", []⟩,
    ⟨"audio-wav",
      "MATCH (f:File) WHERE f.file_category = 'audio' AND f.extension = '.wav' AND f.tenant_id = $tid RETURN f", []⟩,
    ⟨"audio-dsd",
      "MATCH (f:File) WHERE f.file_category = 'audio' AND f.extension IN ['.dsf','.dff'] AND f.tenant_id = $tid RETURN f", []⟩,
    ⟨"audio-opus",
      "MATCH (f:File) WHERE f.file_category = 'audio' AND f.extension IN ['.opus','.ogg','.oga'] AND f.tenant_id = $tid RETURN f", []⟩]

/-! ### Images -/

def images : Category where
  id := "images"
  cypher := "MATCH (f:File) WHERE f.file_category = 'image' AND f.tenant_id = $tid RETURN f"
  subcategories := [
    ⟨"images-jpeg",
      "MATCH (f:File) WHERE f.file_category = 'image' AND f.extension IN ['.jpg','.jpeg'] AND f.tenant_id = $tid RETURN f", []⟩,
    ⟨"images-png",
      "MATCH (f:File) WHERE f.file_category = 'image' AND f.extension = '.png' AND f.tenant_id = $tid RETURN f", []⟩,
    ⟨"images-raw",
      "MATCH (f:File) WHERE f.file_category = 'image' AND f.extension IN ['.cr2','.nef','.arw','.raf','.dng','.heic','.heif','.rw2'] AND f.tenant_id = $tid RETURN f", []⟩,
    ⟨"images-tiff",
      "MATCH (f:File) WHERE f.file_category = 'image' AND f.extension IN ['.tiff','.tif','.bmp'] AND f.tenant_id = $tid RETURN f", []⟩,
    ⟨"images-webp",
      "MATCH (f:File) WHERE f.file_category = 'image' AND f.extension IN ['.webp','.gif','.avif'] AND f.tenant_id = $tid RETURN f", []⟩]

/-! ### Documents -/

def documents : Category where
  id := "documents"
  cypher := "MATCH (f:File) WHERE f.file_category = 'document' AND f.tenant_id = $tid RETURN f"
  subcategories := [
    ⟨"docs-pdf",
      "MATCH (f:File) WHERE f.extension = '.pdf' AND f.tenant_id = $tid RETURN f", []⟩,
    ⟨"docs-word",
      "MATCH (f:File) WHERE f.extension IN ['.docx','.doc','.odt','.rtf'] AND f.tenant_id = $tid RETURN f", []⟩,
    ⟨"docs-excel",
      "MATCH (f:File) WHERE f.extension IN ['.xlsx','.xls','.csv','.ods','.tsv'] AND f.tenant_id = $tid RETURN f", []⟩,
    ⟨"docs-powerpoint",
      "MATCH (f:File) WHERE f.extension IN ['.pptx','.ppt','.key','.odp'] AND f.tenant_id = $tid RETURN f", []⟩,
    ⟨"docs-text",
      "MATCH (f:File) WHERE f.extension IN ['.txt','.md','.rst','.rtf','.log'] AND f.tenant_id = $tid RETURN f", []⟩,
    ⟨"docs-data",
      "MATCH (f:File) WHERE f.extension IN ['.json','.xml','.yaml','.yml','.toml','.ini'] AND f.tenant_id = $tid RETURN f", []⟩]

/-! ### Email -/

def emails : Category where
  id := "emails"
  cypher := "MATCH (f:File) WHERE f.file_category = 'email' AND f.tenant_id = $tid RETURN f"
  subcategories := [
    ⟨"emails-eml",
      "MATCH (f:File) WHERE f.extension IN ['.eml','.mbox','.mbx'] AND f.tenant_id = $tid RETURN f", []⟩,
    ⟨"emails-msg",
      "MATCH (f:File) WHERE f.extension = '.msg' AND f.tenant_id = $tid RETURN f", []⟩]

/-! ### Code -/

def code : Category where
  id := "code"
  cypher := "MATCH (f:File) WHERE f.file_category = 'code' AND f.tenant_id = $tid RETURN f"
  subcategories := [
    ⟨"code-python",
      "MATCH (f:File) WHERE f.extension IN ['.py','.pyw','.pyi'] AND f.tenant_id = $tid RETURN f", []⟩,
    ⟨"code-javascript",
      "MATCH (f:File) WHERE f.extension IN ['.js','.mjs','.cjs','.ts','.tsx','.jsx'] AND f.tenant_id = $tid RETURN f", []⟩,
    ⟨"code-go",
      "MATCH (f:File) WHERE f.extension = '.go' AND f.tenant_id = $tid RETURN f", []⟩,
    ⟨"code-rust",
      "MATCH (f:File) WHERE f.extension = '.rs' AND f.tenant_id = $tid RETURN f", []⟩,
    ⟨"code-java",
      "MATCH (f:File) WHERE f.extension IN ['.java','.kt','.scala','.groovy'] AND f.tenant_id = $tid RETURN f", []⟩,
    ⟨"code-csharp",
      "MATCH (f:File) WHERE f.extension IN ['.cs','.c','.cpp','.h','.hpp','.cc'] AND f.tenant_id = $tid RETURN f", []⟩,
    ⟨"code-shell",
      "MATCH (f:File) WHERE f.extension IN ['.sh','.bash','.zsh','.fish','.ps1','.bat','.cmd'] AND f.tenant_id = $tid RETURN f", []⟩,
    ⟨"code-config",
      "MATCH (f:File) WHERE f.extension IN ['.env','.properties','.conf','.cfg','.ini'] AND f.tenant_id = $tid RETURN f", []⟩,
    ⟨"code-sql",
      "MATCH (f:File) WHERE f.extension IN ['.sql','.graphql','.gql'] AND f.tenant_id = $tid RETURN f", []⟩]

/-! ### Software -/

def executables : Category where
  id := "executables"
  cypher := "MATCH (f:File) WHERE f.file_category = 'executable' AND f.tenant_id = $tid RETURN f"
  subcategories := [
    ⟨"exe-pe",
      "MATCH (f:File) WHERE f.file_category = 'executable' AND f.binary_format = 'PE' AND f.tenant_id = $tid RETURN f", []⟩,
    ⟨"exe-elf",
      "MATCH (f:File) WHERE f.file_category = 'executable' AND f.binary_format = 'ELF' AND f.tenant_id = $tid RETURN f", []⟩,
    ⟨"exe-macho",
      "MATCH (f:File) WHERE f.file_category = 'executable' AND f.binary_format = 'MACHO' AND f.tenant_id = $tid RETURN f", []⟩,
    ⟨"exe-msi",
      "MATCH (f:File) WHERE f.extension IN ['.msi','.pkg','.deb','.rpm','.dmg'] AND f.tenant_id = $tid RETURN f", []⟩]

/-! ### Archives -/

def archives : Category where
  id := "archives"
  cypher := "MATCH (f:File) WHERE f.file_category = 'archive' AND f.tenant_id = $tid RETURN f"
  subcategories := [
    ⟨"archives-zip",
      "MATCH (f:File) WHERE f.extension IN ['.zip','.jar','.war','.ear','.apk','.ipa'] AND f.tenant_id = $tid RETURN f", []⟩,
    ⟨"archives-7z",
      "MATCH (f:File) WHERE f.extension IN ['.7z','.rar','.ace','.arj'] AND f.tenant_id = $tid RETURN f", []⟩,
    ⟨"archives-tar",
      "MATCH (f:File) WHERE f.extension IN ['.tar','.gz','.tgz','.bz2','.xz','.zst','.lz4'] AND f.tenant_id = $tid RETURN f", []⟩,
    ⟨"archives-iso",
      "MATCH (f:File) WHERE f.extension IN ['.iso','.img'] AND f.tenant_id = $tid RETURN f", []⟩]

/-! ### Security -/

def certificates : Category where
  id := "certificates"
  cypher := "MATCH (f:File) WHERE f.file_category IN ['certificate','private_key'] AND f.tenant_id = $tid RETURN f"
  subcategories := [
    ⟨"certs-pem",
      "MATCH (f:File) WHERE f.extension IN ['.pem','.crt','.cer'] AND f.tenant_id = $tid RETURN f", []⟩,
    ⟨"certs-pkcs12",
      "MATCH (f:File) WHERE f.extension IN ['.p12','.pfx'] AND f.tenant_id = $tid RETURN f", []⟩,
    ⟨"certs-keys",
      "MATCH (f:File) WHERE f.extension IN ['.key','.der'] OR f.file_category = 'private_key' AND f.tenant_id = $tid RETURN f", []⟩]

/-! ### Design & Engineering -/

def models3d : Category where
  id := "3d-models"
  cypher := "MATCH (f:File) WHERE f.file_category = '3d_model' AND f.tenant_id = $tid RETURN f"
  subcategories := [
    ⟨"3d-stl",
      "MATCH (f:File) WHERE f.extension IN ['.stl','.obj'] AND f.tenant_id = $tid RETURN f", []⟩,
    ⟨"3d-cad",
      "MATCH (f:File) WHERE f.extension IN ['.dwg','.dxf','.step','.stp','.iges','.igs'] AND f.tenant_id = $tid RETURN f", []⟩,
    ⟨"3d-blend",
      "MATCH (f:File) WHERE f.extension IN ['.blend','.fbx','.dae','.glb','.gltf'] AND f.tenant_id = $tid RETURN f", []⟩]

/-! ### Productivity -/

def calendarContacts : Category where
  id := "calendar-contacts"
  cypher := "MATCH (f:File) WHERE f.file_category IN ['calendar','contact'] AND f.tenant_id = $tid RETURN f"
  subcategories := [
    ⟨"calendar-ics",
      "MATCH (f:File) WHERE f.extension = '.ics' AND f.tenant_id = $tid RETURN f", []⟩,
    ⟨"contacts-vcf",
      "MATCH (f:File) WHERE f.extension = '.vcf' AND f.tenant_id = $tid RETURN f", []⟩]

/-! ### People & Identity -/

def people : Category where
  id := "people"
  cypher := "MATCH (p:Person) WHERE p.tenant_id = $tid RETURN p AS f"
  subcategories := [
    ⟨"people-identified",
      "MATCH (p:Person) WHERE p.known = true AND p.tenant_id = $tid RETURN p AS f", []⟩,
    ⟨"people-unknown",
      "MATCH (fc:FaceCluster) WHERE NOT (fc)-[:SAME_PERSON_AS]->(:Person) AND fc.tenant_id = $tid RETURN fc AS f", []⟩]

/-! ### Software Inventory -/

def applications : Category where
  id := "applications"
  cypher := "MATCH (a:Application) WHERE a.tenant_id = $tid RETURN a AS f"
  subcategories := []

/-! ### Storage -/

def duplicates : Category where
  id := "duplicates"
  cypher := "MATCH (f:File)-[:DUPLICATE_OF]->(g:File) WHERE f.tenant_id = $tid RETURN DISTINCT f"
  subcategories := []

def directories : Category where
  id := "directories"
  cypher := "MATCH (d:Directory) WHERE d.tenant_id = $tid RETURN d AS f"
  subcategories := []

/-- `INVENTORY`. -/
def inventory : List Category :=
  [video, audio, images, documents, emails, code, executables, archives, certificates,
   models3d, calendarContacts, people, applications, duplicates, directories]

mutual

/-- A category and its subcategories. -/
def Category.flattened : Category → List Category
  | ⟨id, cypher, subcategories⟩ => ⟨id, cypher, subcategories⟩ :: flatten subcategories

/-- `_flatten`. -/
def flatten : List Category → List Category
  | [] => []
  | cat :: cats => cat.flattened ++ flatten cats

end

/-- `ALL_CATEGORIES`. -/
def allCategories : List Category := flatten inventory

/-- `get_category`: of two categories of one id the index keeps the last. -/
def getCategory (cid : String) : Option Category := allCategories.reverse.find? fun c => c.id = cid

end Dgraphai.Inventory
