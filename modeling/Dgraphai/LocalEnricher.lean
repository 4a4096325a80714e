import Dgraphai.FileWalks
import Dgraphai.Lib.Regex
import Mathlib.Data.List.Chain
import Mathlib.Data.List.Infix
import Mathlib.Data.List.Nodup
import Mathlib.Data.List.TakeWhile

/-!
# The local enricher of the agent (`internal/enricher/local_enricher.go`)

`Enrich` reads a file line by line through a buffer of 64 KiB, joins the lines with `\n` and tries each pattern on
the result. It does not ask the scanner why it stopped: a line that does not fit the buffer ends the text, and so
does the 10001st line. What the patterns see is the whole file, line ends apart, exactly if neither cuts it short.
-/

namespace Dgraphai.LocalEnricher
open Regex

/-! ### Text -/

/-- What a Go program reads from a text: a character, or a byte that is part of none. -/
inductive Rune where
  | char (c : Char)
  | invalid
  deriving DecidableEq, Repr

def Rune.value : Rune → Char
  | .char c => c
  | .invalid => '\ufffd'

def Rune.width : Rune → ℕ
  | .char c => c.utf8Size
  | .invalid => 1

abbrev Text := List Rune

def size (s : Text) : ℕ := (s.map Rune.width).sum

def ofString (s : String) : Text := s.toList.map .char

def newline : Rune := .char '\n'

def carriageReturn : Rune := .char '\r'

/-- `Regexp.MatchString`. -/
def MatchString (r : Regex Char) (s : Text) : Prop := Regex.MatchString isWordChar r (s.map Rune.value)

instance (r : Regex Char) (s : Text) : Decidable (MatchString r s) :=
  inferInstanceAs (Decidable (Regex.MatchString isWordChar r (s.map Rune.value)))

/-! ### The patterns -/

structure SecretPattern where
  name : String
  pattern : Regex Char

def alphanum : Regex Char := cls Char.isAlphanum
def digit : Regex Char := cls Char.isDigit
def space : Regex Char := cls isSpaceChar

/-- `[_\-]?` -/
def joint : Regex Char := opt (cls (oneOf "_-"))

/-- `["']` -/
def quote : Regex Char := cls (oneOf "\"'")

def secretPatterns : List SecretPattern :=
  [⟨"aws_key", seqs [foldedText "aws", joint,
      alts [seqs [foldedText "access", joint, foldedText "key", joint, foldedText "id"], foldedText "secret"],
      cls fun x => !fold isWordChar x, between 20 40 (cls (fold fun x => isWordChar x || oneOf "+/" x))]⟩,
    ⟨"github_token", alts [seqs [text "ghp_", times 36 alphanum], seqs [text "github_pat_", times 82 (cls isWordChar)]]⟩,
    ⟨"stripe_key", seqs [text "sk_", alts [text "live", text "test"], text "_", atLeast 24 alphanum]⟩,
    ⟨"private_key", seqs [text "-----BEGIN ", opt (alts [text "RSA ", text "EC ", text "OPENSSH "]),
      text "PRIVATE KEY-----"]⟩,
    ⟨"google_api", seqs [text "AIza", times 35 (cls fun x => x.isAlphanum || oneOf "-_" x)]⟩,
    ⟨"slack_token", seqs [text "xox", cls (oneOf "baprs"), text "-", between 10 48 alphanum]⟩,
    ⟨"jwt", seqs [text "eyJ", atLeast 4 (cls fun x => x.isAlphanum || oneOf "_-" x), text ".eyJ",
      atLeast 4 (cls fun x => x.isAlphanum || oneOf "_-" x), text ".",
      atLeast 4 (cls fun x => x.isAlphanum || oneOf "_-" x)]⟩,
    ⟨"generic_secret", seqs [alts [seqs [foldedText "secret", joint, foldedText "key"],
        seqs [foldedText "api", joint, foldedText "key"], seqs [foldedText "auth", joint, foldedText "token"],
        seqs [foldedText "access", joint, foldedText "token"]],
      .star space, cls (oneOf "=:"), .star space, opt quote,
      atLeast 16 (cls (fold fun x => x.isAlphanum || oneOf "+/=_-" x))]⟩,
    ⟨"password_in_code", seqs [alts [foldedText "password", foldedText "passwd", foldedText "pwd"],
      .star space, cls (oneOf "=:"), .star space, quote, atLeast 8 (cls fun x => !oneOf "\"'" x), quote]⟩]

def ssn : Regex Char :=
  seqs [.boundary, times 3 digit, text "-", times 2 digit, text "-", times 4 digit, .boundary]

def piiPatterns : List SecretPattern :=
  [⟨"email", seqs [atLeast 1 (cls fun x => x.isAlphanum || oneOf "._%+-" x), text "@",
      atLeast 1 (cls fun x => x.isAlphanum || oneOf ".-" x), text ".", atLeast 2 (cls Char.isAlpha)]⟩,
    ⟨"phone", seqs [.boundary,
      opt (seqs [opt (text "+"), text "1", opt (cls fun x => oneOf "-." x || isSpaceChar x)]),
      opt (text "("), times 3 digit, opt (text ")"), opt (cls fun x => oneOf "-." x || isSpaceChar x),
      times 3 digit, opt (cls fun x => oneOf "-." x || isSpaceChar x), times 4 digit, .boundary]⟩,
    ⟨"ssn", ssn⟩,
    ⟨"cc", seqs [.boundary,
      alts [seqs [text "4", times 12 digit, opt (times 3 digit)],
        seqs [text "5", cls (oneOf "12345"), times 14 digit],
        seqs [text "3", cls (oneOf "47"), times 13 digit]], .boundary]⟩]

/-! ### `Enrich` -/

structure Enricher where
  enableSecrets : Bool
  enablePII : Bool
  deriving DecidableEq, Repr

def new (enableSecrets enablePII : Bool) : Enricher := ⟨enableSecrets, enablePII⟩

structure EnrichResult where
  containsSecrets : Bool := false
  secretTypes : List String := []
  piiDetected : Bool := false
  piiTypes : List String := []
  sensitivityLevel : String := ""
  deriving DecidableEq, Repr

/-- `strings.Contains`. -/
def contains (s substr : String) : Bool := decide (substr.toList <:+: s.toList)

def computeSeverity (r : EnrichResult) : String :=
  if r.containsSecrets then
    if r.secretTypes.any fun t => contains t "private_key" || contains t "aws" then "critical" else "high"
  else if r.piiDetected then
    if r.piiTypes.any fun t => t = "ssn" || t = "cc" then "high" else "medium"
  else "low"

def textExts : List String :=
  [".py", ".js", ".ts", ".go", ".rs",
    ".java", ".cs", ".cpp", ".c", ".h",
    ".rb", ".php", ".sh", ".bash", ".ps1",
    ".env", ".yaml", ".yml", ".toml", ".ini",
    ".json", ".xml", ".conf", ".cfg", ".config",
    ".txt", ".md", ".csv", ".sql", ".properties",
    ".tf", ".hcl", ".dockerfile", ".pem", ".key"]

structure Reader where
  content : Text
  /-- Whether the read of the last bytes already says `io.EOF`, which an `io.Reader` is free to do. -/
  eofWithData : Bool
  deriving DecidableEq, Repr

def maxBytes : ℕ := 1024 * 1024

def bufferSize : ℕ := 64 * 1024

/-- The first bytes of a text. Of a character cut in two, no byte is part of a character. -/
def limit : ℕ → Text → Text
  | _, [] => []
  | n, x :: s => if x.width ≤ n then x :: limit (n - x.width) s else List.replicate n .invalid

/-- `io.LimitedReader`; one that has used up its bytes says `io.EOF` in a read of its own. -/
def Reader.limited (r : Reader) (n : ℕ) : Reader :=
  ⟨limit n r.content, r.eofWithData && decide (size r.content ≤ n)⟩

/-- A line, and whether a newline ends it. -/
structure Line where
  text : Text
  ended : Bool
  deriving DecidableEq, Repr

/-- The line as it stands in the file. -/
def Line.raw (l : Line) : Text := if l.ended then l.text ++ [newline] else l.text

def lines : Text → List Line
  | [] => []
  | x :: s =>
    if x = newline then ⟨[], true⟩ :: lines s
    else match lines s with
      | [] => [⟨[x], false⟩]
      | l :: rest => ⟨x :: l.text, l.ended⟩ :: rest

/-- Whether the scanner sees the end of the line before its buffer is full. -/
def Line.fits (eof : Bool) (l : Line) : Bool :=
  decide (size l.text < bufferSize) || decide (size l.text = bufferSize) && !l.ended && eof

/-- One `\r` at the end of a line belongs to its end. -/
def dropCR : Text → Text
  | [] => []
  | x :: s => if s = [] then if x = carriageReturn then [] else [x] else x :: dropCR s

/-- The tokens of a `bufio.Scanner`: with the first line that does not fit, `Scan` is false for good. -/
def tokens (r : Reader) : List Text := ((lines r.content).takeWhile (·.fits r.eofWithData)).map fun l => dropCR l.text

/-- The loop over `scanner.Scan()`. -/
def readLines : List Text → List Text → List Text
  | got, [] => got
  | got, token :: rest => if (got ++ [token]).length > 10000 then got ++ [token] else readLines (got ++ [token]) rest

def scanText (r : Reader) : Text := [newline].intercalate (readLines [] (tokens (r.limited maxBytes)))

def addSecret (s : Text) (result : EnrichResult) (p : SecretPattern) : EnrichResult :=
  if MatchString p.pattern s then
    { result with containsSecrets := true, secretTypes := result.secretTypes ++ [p.name] }
  else result

def addPII (s : Text) (result : EnrichResult) (p : SecretPattern) : EnrichResult :=
  if MatchString p.pattern s then
    { result with piiDetected := true, piiTypes := result.piiTypes ++ [p.name] }
  else result

-- `strings.ToLower`
variable (toLower : String → String)

def isTextLike (ext : String) : Bool := textExts.contains (toLower ext)

/-- The error `Enrich` returns beside its result is nil on every path. -/
def Enricher.enrich (e : Enricher) (r : Reader) (info : FileWalks.FileInfo) : EnrichResult :=
  if !isTextLike toLower info.extension then {}
  else
    let s := scanText r
    let result : EnrichResult := if e.enableSecrets then secretPatterns.foldl (addSecret s) {} else {}
    let result := if e.enablePII then piiPatterns.foldl (addPII s) result else result
    { result with sensitivityLevel := computeSeverity result }

variable {toLower}

/-! ### What the scans find -/

def typesIn (ps : List SecretPattern) (s : Text) : List String :=
  (ps.filter fun p => MatchString p.pattern s).map (·.name)

theorem names_nonempty_iff {α : Type*} (ps : List α) (ok : α → Bool) (name : α → String) :
    (!((ps.filter ok).map name).isEmpty) = true ↔ ∃ p ∈ ps, ok p = true := by
  rw [Bool.not_eq_true', List.isEmpty_eq_false_iff_exists_mem]
  constructor
  · rintro ⟨x, hx⟩
    obtain ⟨p, hp, -⟩ := List.mem_map.1 hx
    obtain ⟨hp, hok⟩ := List.mem_filter.1 hp
    exact ⟨p, hp, hok⟩
  · rintro ⟨p, hp, hok⟩
    exact ⟨name p, List.mem_map.2 ⟨p, List.mem_filter.2 ⟨hp, hok⟩, rfl⟩⟩

theorem typesIn_nonempty_iff (ps : List SecretPattern) (s : Text) :
    (!(typesIn ps s).isEmpty) = true ↔ ∃ p ∈ ps, MatchString p.pattern s := by
  rw [typesIn, names_nonempty_iff]
  simp only [decide_eq_true_eq]

theorem foldl_addSecret (s : Text) (ps : List SecretPattern) (result : EnrichResult) :
    ps.foldl (addSecret s) result =
      { result with
        containsSecrets := result.containsSecrets || !(typesIn ps s).isEmpty
        secretTypes := result.secretTypes ++ typesIn ps s } := by
  induction ps generalizing result with
  | nil => simp [typesIn]
  | cons p ps ih =>
    rw [List.foldl_cons, ih, addSecret]
    by_cases h : MatchString p.pattern s
    · simp [typesIn, h]
    · simp [typesIn, h]

theorem foldl_addPII (s : Text) (ps : List SecretPattern) (result : EnrichResult) :
    ps.foldl (addPII s) result =
      { result with
        piiDetected := result.piiDetected || !(typesIn ps s).isEmpty
        piiTypes := result.piiTypes ++ typesIn ps s } := by
  induction ps generalizing result with
  | nil => simp [typesIn]
  | cons p ps ih =>
    rw [List.foldl_cons, ih, addPII]
    by_cases h : MatchString p.pattern s
    · simp [typesIn, h]
    · simp [typesIn, h]

def Enricher.findings (e : Enricher) (s : Text) : EnrichResult where
  containsSecrets := e.enableSecrets && !(typesIn secretPatterns s).isEmpty
  secretTypes := if e.enableSecrets then typesIn secretPatterns s else []
  piiDetected := e.enablePII && !(typesIn piiPatterns s).isEmpty
  piiTypes := if e.enablePII then typesIn piiPatterns s else []

theorem enrich_eq (e : Enricher) (r : Reader) {info : FileWalks.FileInfo}
    (h : isTextLike toLower info.extension = true) :
    e.enrich toLower r info =
      { e.findings (scanText r) with sensitivityLevel := computeSeverity (e.findings (scanText r)) } := by
  obtain ⟨secrets, pii⟩ := e
  rw [Enricher.enrich, h]
  simp only [foldl_addSecret, foldl_addPII]
  cases secrets <;> cases pii <;> rfl

theorem typesIn_eq_iff {ps : List SecretPattern} (hnames : (ps.map (·.name)).Nodup) (s t : Text) :
    typesIn ps s = typesIn ps t ↔ ∀ p ∈ ps, (MatchString p.pattern s ↔ MatchString p.pattern t) := by
  constructor
  · intro h p hp
    have hmem : ∀ s : Text, p.name ∈ typesIn ps s ↔ MatchString p.pattern s := by
      intro s
      rw [typesIn, List.mem_map]
      constructor
      · rintro ⟨q, hq, hname⟩
        obtain ⟨hq, hmatch⟩ := List.mem_filter.1 hq
        obtain rfl := List.inj_on_of_nodup_map hnames hq hp hname
        exact of_decide_eq_true hmatch
      · exact fun hmatch => ⟨p, List.mem_filter.2 ⟨hp, decide_eq_true hmatch⟩, rfl⟩
    rw [← hmem s, h, hmem t]
  · intro h
    rw [typesIn, typesIn]
    refine congrArg _ (List.filter_congr fun p hp => ?_)
    rw [decide_eq_decide]
    exact h p hp

/-! ### Lines and line ends -/

/-- `\r\n` becomes `\n`. -/
def normalise : Text → Text
  | [] => []
  | x :: s => if x = carriageReturn ∧ s.head? = some newline then normalise s else x :: normalise s

def joined (ls : List Line) : Text := [newline].intercalate (ls.map fun l => dropCR l.text)

/-- Lines one after the other: only the last can go without a newline. -/
structure Rows (ls : List Line) : Prop where
  text : ∀ l ∈ ls, newline ∉ l.text
  ended : ls.IsChain fun l _ => l.ended = true

theorem Rows.of_prefix {ls ls' : List Line} (h : Rows ls) (hp : ls' <+: ls) : Rows ls' :=
  ⟨fun l hl => h.text l (hp.subset hl), h.ended.prefix hp⟩

theorem Rows.tail {l : Line} {ls : List Line} (h : Rows (l :: ls)) : Rows ls :=
  ⟨fun m hm => h.text m (List.mem_cons_of_mem l hm), h.ended.tail⟩

theorem Rows.raw_head {l m : Line} {ls : List Line} (h : Rows (l :: m :: ls)) : l.raw = l.text ++ [newline] := by
  rw [Line.raw, if_pos (List.isChain_cons_cons.1 h.ended).1]

theorem rows_lines (s : Text) : Rows (lines s) ∧ (lines s).flatMap Line.raw = s := by
  induction s with
  | nil => exact ⟨⟨fun l hl => absurd hl List.not_mem_nil, .nil⟩, rfl⟩
  | cons x s ih =>
    obtain ⟨⟨htext, hended⟩, hraw⟩ := ih
    rw [lines]
    by_cases hx : x = newline
    · rw [if_pos hx, List.flatMap_cons, hraw, hx]
      refine ⟨⟨?_, hended.cons fun m hm => rfl⟩, rfl⟩
      exact List.forall_mem_cons.2 ⟨List.not_mem_nil, htext⟩
    · rw [if_neg hx]
      cases hls : lines s with
      | nil =>
        rw [hls] at hraw
        subst hraw
        refine ⟨⟨?_, .singleton _⟩, rfl⟩
        exact List.forall_mem_singleton.2 fun hmem => hx (List.mem_singleton.1 hmem).symm
      | cons l rest =>
        rw [hls] at htext hended hraw
        obtain ⟨hl, hrest⟩ := List.forall_mem_cons.1 htext
        refine ⟨⟨List.forall_mem_cons.2 ⟨?_, hrest⟩, hended.tail.cons (hended.rel_head?)⟩, ?_⟩
        · intro hmem
          exact (List.mem_cons.1 hmem).elim (fun h => hx h.symm) hl
        · rw [← hraw, List.flatMap_cons, List.flatMap_cons, Line.raw, Line.raw]
          cases l.ended <;> rfl

theorem dropCR_cases (s : Text) : s = dropCR s ∨ s = dropCR s ++ [carriageReturn] := by
  induction s with
  | nil => exact .inl rfl
  | cons x s ih =>
    rw [dropCR]
    by_cases hs : s = []
    · rw [if_pos hs, hs]
      by_cases hx : x = carriageReturn
      · rw [if_pos hx, hx]
        exact .inr rfl
      · rw [if_neg hx]
        exact .inl rfl
    · rw [if_neg hs]
      exact ih.imp (congrArg (x :: ·)) (congrArg (x :: ·))

theorem dropCR_singleton (x : Rune) : dropCR [x] = if x = carriageReturn then [] else [x] := by
  rw [dropCR, if_pos rfl]

theorem dropCR_cons_cons (x y : Rune) (s : Text) : dropCR (x :: y :: s) = x :: dropCR (y :: s) := by
  conv_lhs => rw [dropCR, if_neg (List.cons_ne_nil y s)]

theorem normalise_append {a : Text} (ha : newline ∉ a) (s : Text) :
    normalise (a ++ newline :: s) = dropCR a ++ newline :: normalise s := by
  induction a with
  | nil =>
    rw [List.nil_append, normalise, if_neg (fun h => absurd h.1 (by decide))]
    rfl
  | cons x a ih =>
    have ha : newline ∉ a := fun h => ha (List.mem_cons_of_mem x h)
    rw [List.cons_append, normalise, ih ha]
    cases a with
    | nil =>
      by_cases hcr : x = carriageReturn
      · rw [if_pos ⟨hcr, rfl⟩, dropCR_singleton, if_pos hcr]
        rfl
      · rw [if_neg (fun h => hcr h.1), dropCR_singleton, if_neg hcr]
        rfl
    | cons y a =>
      have hhead : (y :: a ++ newline :: s).head? ≠ some newline := fun h =>
        ha (Option.some.inj h ▸ List.mem_cons_self)
      rw [if_neg (fun h => hhead h.2), dropCR_cons_cons]
      rfl

theorem normalise_of_not_mem {a : Text} (ha : newline ∉ a) : normalise a = a := by
  induction a with
  | nil => rfl
  | cons x a ih =>
    have ha : newline ∉ a := fun h => ha (List.mem_cons_of_mem x h)
    rw [normalise, ih ha, if_neg]
    rintro ⟨-, hhead⟩
    exact ha (List.mem_of_mem_head? hhead)

theorem joined_cons_cons (l m : Line) (ls : List Line) :
    joined (l :: m :: ls) = dropCR l.text ++ newline :: joined (m :: ls) := by
  rw [joined, List.map_cons, List.map_cons, List.intercalate_cons_cons, List.append_assoc]
  rfl

/-- The lines of a text are joined to the text, but for the end of the last one. -/
theorem normalise_rows {ls : List Line} (h : Rows ls) :
    ∃ t, normalise (ls.flatMap Line.raw) = joined ls ++ t ∧ (t = [] ∨ t = [newline] ∨ t = [carriageReturn]) := by
  induction ls with
  | nil => exact ⟨[], rfl, .inl rfl⟩
  | cons l ls ih =>
    have hl := h.text l List.mem_cons_self
    cases ls with
    | nil =>
      have hjoined : joined [l] = dropCR l.text := List.intercalate_singleton
      rw [List.flatMap_singleton, hjoined, Line.raw]
      by_cases hended : l.ended = true
      · rw [if_pos hended, normalise_append hl]
        exact ⟨_, rfl, .inr (.inl rfl)⟩
      · rw [if_neg hended, normalise_of_not_mem hl]
        rcases dropCR_cases l.text with heq | heq
        · exact ⟨[], heq.trans (List.append_nil _).symm, .inl rfl⟩
        · exact ⟨_, heq, .inr (.inr rfl)⟩
    | cons m ls =>
      obtain ⟨t, ht, hcases⟩ := ih h.tail
      refine ⟨t, ?_, hcases⟩
      rw [List.flatMap_cons, h.raw_head, List.append_assoc, List.singleton_append, normalise_append hl, ht,
        joined_cons_cons, List.append_assoc]
      rfl

/-- Behind lines of a text that are not its last ones stands a newline. -/
theorem normalise_rows_append {l : Line} {ls rest : List Line} (h : Rows (l :: ls ++ rest)) (hrest : rest ≠ []) :
    ∃ t, normalise ((l :: ls ++ rest).flatMap Line.raw) = joined (l :: ls) ++ newline :: t := by
  induction ls generalizing l with
  | nil =>
    obtain ⟨m, rest, rfl⟩ := List.exists_cons_of_ne_nil hrest
    have hjoined : joined [l] = dropCR l.text := List.intercalate_singleton
    refine ⟨normalise ((m :: rest).flatMap Line.raw), ?_⟩
    rw [List.singleton_append] at h ⊢
    rw [List.flatMap_cons, h.raw_head, List.append_assoc, List.singleton_append,
      normalise_append (h.text l List.mem_cons_self), hjoined]
  | cons m ls ih =>
    obtain ⟨t, ht⟩ := ih h.tail
    refine ⟨t, ?_⟩
    rw [List.cons_append, List.cons_append] at h
    rw [List.cons_append, List.cons_append, List.flatMap_cons, h.raw_head, List.append_assoc, List.singleton_append,
      normalise_append (h.text l List.mem_cons_self), ← List.cons_append, ht, joined_cons_cons, List.append_assoc]
    rfl

/-! ### What the patterns see -/

/-- No pattern matches the empty text or asks for the end of a line. -/
theorem patterns_endOff : (secretPatterns ++ piiPatterns).all (fun p =>
    p.pattern.endsOff '\n' && p.pattern.endsOff '\r') = true := by decide +kernel

theorem endsOff_of_mem {p : SecretPattern} (hp : p ∈ secretPatterns ++ piiPatterns) :
    p.pattern.endsOff '\n' = true ∧ p.pattern.endsOff '\r' = true :=
  Bool.and_eq_true_iff.1 (List.all_eq_true.1 patterns_endOff p hp)

theorem names_nodup : (secretPatterns.map (·.name)).Nodup ∧ (piiPatterns.map (·.name)).Nodup := by decide +kernel

theorem matchString_rows {p : SecretPattern} (hp : p ∈ secretPatterns ++ piiPatterns) {ls : List Line}
    (h : Rows ls) : MatchString p.pattern (normalise (ls.flatMap Line.raw)) ↔ MatchString p.pattern (joined ls) := by
  obtain ⟨hn, hr⟩ := endsOff_of_mem hp
  obtain ⟨t, ht, rfl | rfl | rfl⟩ := normalise_rows h
  · rw [ht, List.append_nil]
  · rw [ht, MatchString, List.map_append]
    exact matchString_concat_iff (x := '\n') (by decide) hn _
  · rw [ht, MatchString, List.map_append]
    exact matchString_concat_iff (x := '\r') (by decide) hr _

theorem matchString_of_prefix {p : SecretPattern} (hp : p ∈ secretPatterns ++ piiPatterns) {ls rest : List Line}
    (h : Rows (ls ++ rest)) (hmatch : MatchString p.pattern (joined ls)) :
    MatchString p.pattern (normalise ((ls ++ rest).flatMap Line.raw)) := by
  cases ls with
  | nil => exact absurd hmatch (not_matchString_nil (endsOff_of_mem hp).1)
  | cons l ls =>
    by_cases hrest : rest = []
    · subst hrest
      rw [List.append_nil] at h ⊢
      exact (matchString_rows hp h).2 hmatch
    · obtain ⟨t, ht⟩ := normalise_rows_append h hrest
      rw [ht, MatchString, List.map_append]
      have hword : wordAt isWordChar ((newline :: t).map Rune.value) = false := rfl
      exact matchString_append hword hmatch

theorem limit_of_size_le {n : ℕ} {s : Text} (h : size s ≤ n) : limit n s = s := by
  induction s generalizing n with
  | nil => cases n <;> rfl
  | cons x s ih =>
    have hsize : size (x :: s) = x.width + size s := rfl
    have hx : x.width ≤ n := by omega
    rw [limit, if_pos hx, ih (by omega)]

theorem limited_of_size_le {n : ℕ} {r : Reader} (h : size r.content ≤ n) : r.limited n = r := by
  rw [Reader.limited, limit_of_size_le h, decide_eq_true h, Bool.and_true]

theorem readLines_eq (ts got : List Text) (h : got.length ≤ 10000) :
    readLines got ts = got ++ ts.take (10001 - got.length) := by
  induction ts generalizing got with
  | nil => simp [readLines]
  | cons t ts ih =>
    obtain ⟨k, hk⟩ : ∃ k, 10001 - got.length = k + 1 := ⟨10000 - got.length, by omega⟩
    have hlength : (got ++ [t]).length = got.length + 1 := by simp
    rw [readLines, hk, List.take_succ_cons]
    split_ifs with hmany
    · obtain rfl : k = 0 := by omega
      rfl
    · have hrest : 10001 - (got ++ [t]).length = k := by omega
      rw [ih _ (by omega), hrest, List.append_assoc]
      rfl

/-- The first lines of a file: up to the first that does not fit the buffer, and at most 10001. -/
def Reader.firstLines (r : Reader) : List Line :=
  ((lines r.content).takeWhile (·.fits r.eofWithData)).take 10001

def Reader.head (r : Reader) : Text := r.firstLines.flatMap Line.raw

structure Reader.Short (r : Reader) : Prop where
  fits : ∀ l ∈ lines r.content, l.fits r.eofWithData = true
  count : (lines r.content).length ≤ 10001

theorem prefix_firstLines (r : Reader) : r.firstLines <+: lines r.content :=
  (List.take_prefix _ _).trans (List.takeWhile_prefix _)

theorem scanText_eq {r : Reader} (h : size r.content ≤ maxBytes) : scanText r = joined r.firstLines := by
  rw [scanText, limited_of_size_le h, readLines_eq _ _ (Nat.zero_le _), List.nil_append, tokens, ← List.map_take]
  rfl

theorem Reader.Short.head_eq {r : Reader} (h : r.Short) : r.head = r.content := by
  have hall : r.firstLines = lines r.content := by
    rw [firstLines, List.takeWhile_eq_self_iff.2 h.fits, List.take_of_length_le h.count]
  rw [head, hall, (rows_lines r.content).2]

/-- A pattern sees the file exactly if it matches no part of it but the first lines. -/
theorem matchString_scanText_iff {r : Reader} (h : size r.content ≤ maxBytes) {p : SecretPattern}
    (hp : p ∈ secretPatterns ++ piiPatterns) :
    (MatchString p.pattern (scanText r) ↔ MatchString p.pattern (normalise r.content)) ↔
      (MatchString p.pattern (normalise r.content) → MatchString p.pattern (normalise r.head)) := by
  obtain ⟨hrows, hraw⟩ := rows_lines r.content
  obtain ⟨rest, hrest⟩ := prefix_firstLines r
  have hfirst : MatchString p.pattern (normalise r.head) ↔ MatchString p.pattern (scanText r) := by
    rw [scanText_eq h]
    exact matchString_rows hp (hrows.of_prefix (prefix_firstLines r))
  have hwhole : MatchString p.pattern (scanText r) → MatchString p.pattern (normalise r.content) := by
    intro hmatch
    rw [scanText_eq h] at hmatch
    rw [← hrest] at hrows hraw
    rw [← hraw]
    exact matchString_of_prefix hp hrows hmatch
  rw [hfirst]
  exact ⟨fun hiff => hiff.2, fun himp => ⟨hwhole, himp⟩⟩

/-- The enricher finds what is in the file exactly if no line of it is cut off, or what its patterns match is in the
lines in front of the cut. -/
theorem enrich_iff (r : Reader) (info : FileWalks.FileInfo) (htext : isTextLike toLower info.extension = true)
    (hsize : size r.content ≤ maxBytes) :
    (((new true true).enrich toLower r info).secretTypes = typesIn secretPatterns (normalise r.content) ∧
      ((new true true).enrich toLower r info).piiTypes = typesIn piiPatterns (normalise r.content)) ↔
    r.Short ∨ ∀ p ∈ secretPatterns ++ piiPatterns,
      MatchString p.pattern (normalise r.content) → MatchString p.pattern (normalise r.head) := by
  have hexact : (∀ p ∈ secretPatterns ++ piiPatterns,
      (MatchString p.pattern (scanText r) ↔ MatchString p.pattern (normalise r.content))) ↔
      ∀ p ∈ secretPatterns ++ piiPatterns,
        MatchString p.pattern (normalise r.content) → MatchString p.pattern (normalise r.head) :=
    forall₂_congr fun p hp => matchString_scanText_iff hsize hp
  have hshort : r.Short → ∀ p ∈ secretPatterns ++ piiPatterns,
      MatchString p.pattern (normalise r.content) → MatchString p.pattern (normalise r.head) := by
    intro h p _ hmatch
    rw [h.head_eq]
    exact hmatch
  rw [enrich_eq (new true true) r htext, Enricher.findings, new, if_pos rfl, if_pos rfl, typesIn_eq_iff names_nodup.1, typesIn_eq_iff names_nodup.2,
    ← List.forall_mem_append, hexact]
  exact ⟨.inr, fun h => h.elim hshort id⟩

def lower (s : String) : String := String.ofList (s.toList.map Char.toLower)

def infoOf (name extension : String) : FileWalks.FileInfo :=
  { path := "/srv/" ++ name, name := name, extension := extension, size := 0, modifiedAt := "", indexedAt := ""
    protocol := "local" }

def note : Reader := ⟨ofString "to: a@b.io\r\nSSN 123-45-6789\r\n", false⟩

theorem note_found : ((new true true).enrich lower note (infoOf "note.TXT" ".TXT")).piiTypes = ["email", "ssn"] := by
  have hshort : note.Short := ⟨by decide +kernel, by decide +kernel⟩
  have h := (@enrich_iff lower note (infoOf "note.TXT" ".TXT") (by decide +kernel) (by decide +kernel)).2
    (.inl hshort)
  exact h.2.trans (by decide +kernel)

/-- A line of 64 KiB in front of a social security number. -/
def minified : Reader := ⟨List.replicate 65536 (.char 'x') ++ newline :: ofString "123-45-6789", false⟩

theorem lines_append {a : Text} (ha : newline ∉ a) (s : Text) : lines (a ++ newline :: s) = ⟨a, true⟩ :: lines s := by
  induction a with
  | nil => rw [List.nil_append, lines, if_pos rfl]
  | cons x a ih =>
    have hx : x ≠ newline := fun h => ha (h ▸ List.mem_cons_self)
    rw [List.cons_append, lines, if_neg hx, ih fun h => ha (List.mem_cons_of_mem x h)]

theorem newline_not_mem_replicate (n : ℕ) : newline ∉ List.replicate n (Rune.char 'x') := fun h =>
  absurd (List.eq_of_mem_replicate h) (by decide)

theorem size_append (s t : Text) : size (s ++ t) = size s + size t := by
  rw [size, List.map_append, List.sum_append]
  rfl

theorem size_replicate (n : ℕ) : size (List.replicate n (Rune.char 'x')) = n := by
  have hwidth : (Rune.char 'x').width = 1 := rfl
  rw [size, List.map_replicate, List.sum_replicate_nat, hwidth, Nat.mul_one]

theorem size_minified : size minified.content ≤ maxBytes := by
  rw [minified, size_append, size_replicate]
  decide

theorem scanText_minified : scanText minified = [] := by
  have hfits : Line.fits false ⟨List.replicate 65536 (.char 'x'), true⟩ = false := by
    rw [Line.fits, size_replicate]
    rfl
  have hfirst : minified.firstLines = [] := by
    rw [Reader.firstLines, minified, lines_append (newline_not_mem_replicate _),
      List.takeWhile_cons_of_neg (by rw [hfits]; exact Bool.false_ne_true), List.take_nil]
  rw [scanText_eq size_minified, hfirst]
  rfl

theorem ssn_behind (left : List Char) : ssn.ends isWordChar ⟨'\n' :: left, "123-45-6789".toList⟩ ≠ [] := by
  have h : ssn.ends isWordChar ⟨'\n' :: left, "123-45-6789".toList⟩ = [⟨"9876-54-321\n".toList ++ left, []⟩] := rfl
  rw [h]
  exact List.cons_ne_nil _ _

theorem ssn_in_minified : MatchString ssn (normalise minified.content) := by
  obtain ⟨c, hc⟩ := List.exists_mem_of_ne_nil _
    (ssn_behind ((dropCR (List.replicate 65536 (Rune.char 'x'))).map Rune.value).reverse)
  rw [minified, normalise_append (newline_not_mem_replicate _), MatchString, List.map_append]
  refine ⟨_, "123-45-6789".toList, ?_, c, mem_ends_iff.1 hc⟩
  rw [List.reverse_cons, List.reverse_reverse, List.append_assoc]
  rfl

theorem minified_missed : isTextLike lower ".js" = true ∧ size minified.content ≤ maxBytes ∧
    ((new true true).enrich lower minified (infoOf "app.js" ".js")).piiTypes = [] ∧
    "ssn" ∈ typesIn piiPatterns (normalise minified.content) := by
  have hlower : isTextLike lower ".js" = true := by decide +kernel
  refine ⟨hlower, size_minified, ?_, ?_⟩
  · rw [enrich_eq _ minified hlower, scanText_minified]
    decide +kernel
  · exact List.mem_map.2 ⟨⟨"ssn", ssn⟩, List.mem_filter.2 ⟨by simp [piiPatterns], decide_eq_true ssn_in_minified⟩, rfl⟩

end Dgraphai.LocalEnricher
