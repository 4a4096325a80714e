import Mathlib.Algebra.Order.Ring.Nat
import Mathlib.Data.List.TakeDrop

/-!
# Tar archives (`tarfile`)

A member is a header block, its content and zeros up to a block border; `close` writes two blocks of zeros and fills
up the last record. The reader stops at the first block of zeros (`read_archive`). Only regular files whose names fit
the header are described: others take more than one header.
-/

namespace Tar

abbrev Bytes := List UInt8

structure Member where
  name : Bytes
  content : Bytes
  deriving DecidableEq, Repr

/-- An ASCII name of at most 100 bytes without NUL, and a size of eleven octal digits. -/
structure Member.Plain (m : Member) : Prop where
  name_ascii : ∀ d ∈ m.name, d.toNat < 128
  name_length : m.name.length ≤ 100
  name_nul : 0 ∉ m.name
  content_length : m.content.length < 8 ^ 11

theorem Member.plain_of_all {m : Member} (h : m.name.all (fun d => 0 < d.toNat && d.toNat < 128) = true)
    (hname : m.name.length ≤ 100) (hcontent : m.content.length < 8 ^ 11) : m.Plain := by
  have hall : ∀ d ∈ m.name, 0 < d.toNat ∧ d.toNat < 128 := fun d hd => by
    simpa only [Bool.and_eq_true, decide_eq_true_iff] using List.all_eq_true.1 h d hd
  exact ⟨fun d hd => (hall d hd).2, hname, fun hzero => absurd (hall 0 hzero).1 (by decide), hcontent⟩

def zeros (n : ℕ) : Bytes := List.replicate n 0

/-! ### Writing -/

/-- `stn`. -/
def nulPadded (width : ℕ) (b : Bytes) : Bytes := b ++ zeros (width - b.length)

/-- The octal digits of a number, as many as `width` says. -/
def octal : ℕ → ℕ → Bytes
  | 0, _ => []
  | width + 1, n => octal width (n / 8) ++ [UInt8.ofNat (48 + n % 8)]

/-- `itn`: digits and a NUL. -/
def itn (digits n : ℕ) : Bytes := octal (digits - 1) n ++ [0]

/-- The name, the mode 0644 and the owner and group 0. -/
def lead (m : Member) : Bytes := nulPadded 100 m.name ++ (itn 8 0o644 ++ itn 8 0 ++ itn 8 0)

/-- What follows the checksum: `REGTYPE`, no link, `POSIX_MAGIC`, no names, no device, no prefix. -/
def trail : Bytes := 48 :: (zeros 100 ++ [117, 115, 116, 97, 114, 0, 48, 48] ++ zeros (32 + 32 + 8 + 8 + 155 + 12))

def headerWith (m : Member) (checksum : Bytes) : Bytes :=
  lead m ++ (itn 12 m.content.length ++ itn 12 0) ++ checksum ++ trail

def spaces : Bytes := List.replicate 8 32

def checksum (b : Bytes) : ℕ := (b.map UInt8.toNat).sum

def header (m : Member) : Bytes := headerWith m (octal 6 (checksum (headerWith m spaces)) ++ [0, 32])

/-- `addfile`. -/
def addfile (m : Member) : Bytes := header m ++ m.content ++ zeros ((512 - m.content.length % 512) % 512)

/-- What `close` writes at an offset. -/
def close (offset : ℕ) : Bytes := zeros 1024 ++ zeros ((10240 - (offset + 1024) % 10240) % 10240)

def archive (ms : List Member) : Bytes := ms.flatMap addfile ++ close (ms.flatMap addfile).length

/-! ### Reading -/

/-- `nts`. -/
def nts (b : Bytes) : Bytes := b.takeWhile (· ≠ 0)

def isOctal (b : UInt8) : Bool := 48 ≤ b.toNat ∧ b.toNat ≤ 55

/-- `nti`. -/
def nti (b : Bytes) : Option ℕ :=
  if (nts b).all isOctal then some ((nts b).foldl (fun n d => n * 8 + (d.toNat - 48)) 0) else none

/-- The name and the size in a block. -/
def readHeader (b : Bytes) : Option (Bytes × ℕ) := do
  let sum ← nti ((b.drop 148).take 8)
  if sum ≠ checksum (b.take 148 ++ spaces ++ b.drop 156) then none
  if (b.drop 156).head? ≠ some 48 then none
  let size ← nti ((b.drop 124).take 12)
  pure (nts (b.take 100), size)

/-- The members from a block border on. -/
def readFrom : ℕ → Bytes → Option (List Member)
  | 0, _ => none
  | fuel + 1, b =>
    if b = [] ∨ b.take 512 = zeros 512 then some []
    else if b.length < 512 then none
    else do
      let (name, size) ← readHeader (b.take 512)
      let rest := b.drop 512
      if rest.length < size then none
      let later ← readFrom fuel (rest.drop (size + (512 - size % 512) % 512))
      pure (⟨name, rest.take size⟩ :: later)

/-- The members of a stream, up to the first end-of-archive marker. -/
def read (b : Bytes) : Option (List Member) := readFrom (b.length + 1) b

/-! ### Numbers -/

variable {m : Member} {ms : List Member} {b : Bytes}

theorem length_octal (width n : ℕ) : (octal width n).length = width := by
  induction width generalizing n with
  | zero => rfl
  | succ width ih => rw [octal, List.length_append, ih, List.length_singleton]

theorem toNat_digit (n : ℕ) : (UInt8.ofNat (48 + n % 8)).toNat = 48 + n % 8 := by
  have hlt : 48 + n % 8 < 2 ^ 8 := by omega
  rw [UInt8.toNat_ofNat', Nat.mod_eq_of_lt hlt]

theorem isOctal_of_mem {width n : ℕ} {d : UInt8} (h : d ∈ octal width n) : isOctal d = true := by
  induction width generalizing n with
  | zero => cases h
  | succ width ih =>
    rcases List.mem_append.1 h with h | h
    · exact ih h
    · rw [List.mem_singleton.1 h, isOctal, toNat_digit, decide_eq_true_iff]
      omega

theorem foldl_octal (width n : ℕ) (h : n < 8 ^ width) :
    (octal width n).foldl (fun n d => n * 8 + (d.toNat - 48)) 0 = n := by
  induction width generalizing n with
  | zero => exact (Nat.lt_one_iff.1 h).symm
  | succ width ih =>
    have hdiv : n / 8 < 8 ^ width := by
      rw [Nat.div_lt_iff_lt_mul (by decide)]
      exact h
    rw [octal, List.foldl_append, ih _ hdiv, List.foldl_cons, List.foldl_nil, toNat_digit]
    omega

theorem nts_of_not_mem (h : 0 ∉ b) : nts b = b := by
  have hall : ∀ d ∈ b, decide (d ≠ 0) = true := fun d hd => decide_eq_true fun hzero => h (hzero ▸ hd)
  have happ := @List.takeWhile_append_of_pos _ (fun d : UInt8 => decide (d ≠ 0)) b [] hall
  rwa [List.takeWhile_nil, List.append_nil] at happ

/-- What stands before the first NUL. -/
theorem nts_append (h : 0 ∉ b) (r : Bytes) : nts (b ++ 0 :: r) = b := by
  have hall : ∀ d ∈ b, decide (d ≠ 0) = true := fun d hd => decide_eq_true fun hzero => h (hzero ▸ hd)
  rw [nts, List.takeWhile_append_of_pos hall, List.takeWhile_cons_of_neg (by decide), List.append_nil]

theorem zero_not_mem_octal (width n : ℕ) : 0 ∉ octal width n := fun h => absurd (isOctal_of_mem h) (by decide)

theorem nti_octal (width n : ℕ) (h : n < 8 ^ width) (r : Bytes) : nti (octal width n ++ 0 :: r) = some n := by
  rw [nti, nts_append (zero_not_mem_octal width n), if_pos (List.all_eq_true.2 fun d hd => isOctal_of_mem hd),
    foldl_octal width n h]

/-! ### A header -/

theorem length_lead (h : m.Plain) : (lead m).length = 124 := by
  have hname := h.name_length
  rw [lead, nulPadded, zeros, itn, itn]
  simp only [List.length_append, List.length_replicate, length_octal, List.length_singleton]
  omega

theorem length_itn (digits n : ℕ) : (itn (digits + 1) n).length = digits + 1 := by
  rw [itn, List.length_append, length_octal, List.length_singleton, Nat.add_sub_cancel]

theorem length_trail : trail.length = 356 := by
  rw [trail, zeros, zeros]
  simp only [List.length_cons, List.length_append, List.length_replicate, List.length_nil]

/-- The parts of a header by their offsets. -/
theorem headerWith_parts (h : m.Plain) {sum : Bytes} (hsum : sum.length = 8) :
    (headerWith m sum).length = 512 ∧ (headerWith m sum).take 100 = nulPadded 100 m.name ∧
      ((headerWith m sum).drop 124).take 12 = itn 12 m.content.length ∧
      ((headerWith m sum).drop 148).take 8 = sum ∧
      (headerWith m sum).take 148 ++ spaces ++ (headerWith m sum).drop 156 = headerWith m spaces ∧
      ((headerWith m sum).drop 156).head? = some 48 := by
  have hlead := length_lead h
  have hsize : (itn 12 m.content.length).length = 12 := length_itn 11 _
  have hnumbers : (itn 12 m.content.length ++ itn 12 0).length = 24 := by
    rw [List.length_append, hsize, length_itn 11]
  have hbefore : (lead m ++ (itn 12 m.content.length ++ itn 12 0)).length = 148 := by
    rw [List.length_append, hlead, hnumbers]
  have hupto : (lead m ++ (itn 12 m.content.length ++ itn 12 0) ++ sum).length = 156 := by
    rw [List.length_append, hbefore, hsum]
  have hname : (nulPadded 100 m.name).length = 100 := by
    have hle := h.name_length
    rw [nulPadded, zeros, List.length_append, List.length_replicate]
    omega
  have hdrop : (headerWith m sum).drop 156 = trail := List.drop_left' hupto
  refine ⟨?_, ?_, ?_, ?_, ?_, ?_⟩
  · rw [headerWith, List.length_append, hupto, length_trail]
  · rw [headerWith, lead]
    simp only [List.append_assoc]
    exact List.take_left' hname
  · rw [headerWith]
    simp only [List.append_assoc]
    rw [List.drop_left' hlead, List.take_left' hsize]
  · rw [headerWith, List.append_assoc, List.drop_left' hbefore, List.take_left' hsum]
  · rw [hdrop, headerWith, List.append_assoc (lead m ++ _) sum, List.take_left' hbefore]
    rfl
  · rw [hdrop]
    rfl

theorem checksum_lt (b : Bytes) : checksum b ≤ 255 * b.length := by
  induction b with
  | nil => exact Nat.le_refl 0
  | cons d b ih =>
    have hd : d.toNat < 256 := d.toNat_lt
    rw [checksum, List.map_cons, List.sum_cons, List.length_cons]
    rw [checksum] at ih
    omega

theorem readHeader_header (h : m.Plain) : readHeader (header m) = some (m.name, m.content.length) := by
  have hspaces : (headerWith m spaces).length = 512 := (headerWith_parts h rfl).1
  have hsum : checksum (headerWith m spaces) < 8 ^ 6 := by
    have hle := checksum_lt (headerWith m spaces)
    rw [hspaces] at hle
    omega
  have hfield : (octal 6 (checksum (headerWith m spaces)) ++ [0, 32]).length = 8 := by
    rw [List.length_append, length_octal]
    rfl
  obtain ⟨-, hname, hsize, hchecksum, hblanked, htype⟩ := headerWith_parts h hfield
  rw [header, readHeader, hchecksum, nti_octal 6 _ hsum, hblanked, htype, hsize, itn, nti_octal 11 _ h.content_length,
    hname, nulPadded]
  have hnts : nts (m.name ++ zeros (100 - m.name.length)) = m.name := by
    rcases Nat.eq_zero_or_pos (100 - m.name.length) with hfull | hpos
    · rw [hfull, zeros, List.replicate_zero, List.append_nil, nts_of_not_mem h.name_nul]
    · obtain ⟨k, hk⟩ := Nat.exists_eq_succ_of_ne_zero hpos.ne'
      rw [hk]
      exact nts_append h.name_nul _
  rw [hnts]
  simp

/-! ### An archive -/

theorem length_header (h : m.Plain) : (header m).length = 512 :=
  (headerWith_parts h (by rw [List.length_append, length_octal]; rfl)).1

theorem header_ne_zeros (h : m.Plain) : header m ≠ zeros 512 := by
  intro heq
  have hhead : ((header m).drop 156).head? = some 48 :=
    (headerWith_parts h (by rw [List.length_append, length_octal]; rfl)).2.2.2.2.2
  rw [heq] at hhead
  exact absurd hhead (by decide)

theorem readFrom_archive (hms : ∀ m ∈ ms, m.Plain) (fuel : ℕ) (hfuel : ms.length < fuel) (n : ℕ) (rest : Bytes) :
    readFrom fuel (ms.flatMap addfile ++ (close n ++ rest)) = some ms := by
  induction ms generalizing fuel with
  | nil =>
    obtain ⟨fuel, rfl⟩ := Nat.exists_eq_succ_of_ne_zero (Nat.ne_of_gt hfuel)
    have htake : (close n ++ rest).take 512 = zeros 512 := by
      have hblocks : zeros (512 + 512) = zeros 512 ++ zeros 512 := List.replicate_append_replicate.symm
      rw [close, show (1024 : ℕ) = 512 + 512 from rfl, hblocks, List.append_assoc, List.append_assoc]
      exact List.take_left' List.length_replicate
    rw [List.flatMap_nil, List.nil_append, readFrom, if_pos (.inr htake)]
  | cons m ms ih =>
    obtain ⟨fuel, rfl⟩ := Nat.exists_eq_succ_of_ne_zero (Nat.ne_of_gt (Nat.zero_lt_of_lt hfuel))
    obtain ⟨hm, hms⟩ := List.forall_mem_cons.1 hms
    have hheader := length_header hm
    have hbytes : (m :: ms).flatMap addfile ++ (close n ++ rest) = header m ++ (m.content ++
        (zeros ((512 - m.content.length % 512) % 512) ++ (ms.flatMap addfile ++ (close n ++ rest)))) := by
      rw [List.flatMap_cons, addfile]
      simp only [List.append_assoc]
    have hne : header m ++ (m.content ++
        (zeros ((512 - m.content.length % 512) % 512) ++ (ms.flatMap addfile ++ (close n ++ rest)))) ≠ [] := by
      intro hnil
      rw [(List.append_eq_nil_iff.1 hnil).1] at hheader
      cases hheader
    have htake := @List.take_left' _ (header m) (m.content ++
      (zeros ((512 - m.content.length % 512) % 512) ++ (ms.flatMap addfile ++ (close n ++ rest)))) 512 hheader
    have hdrop := @List.drop_left' _ (header m) (m.content ++
      (zeros ((512 - m.content.length % 512) % 512) ++ (ms.flatMap addfile ++ (close n ++ rest)))) 512 hheader
    have hlater : (m.content ++ (zeros ((512 - m.content.length % 512) % 512) ++
        (ms.flatMap addfile ++ (close n ++ rest)))).drop
          (m.content.length + (512 - m.content.length % 512) % 512) = ms.flatMap addfile ++ (close n ++ rest) := by
      rw [← List.append_assoc]
      exact List.drop_left' (by rw [List.length_append, zeros, List.length_replicate])
    have hlong : ¬ (header m ++ (m.content ++ (zeros ((512 - m.content.length % 512) % 512) ++
        (ms.flatMap addfile ++ (close n ++ rest))))).length < 512 := by
      rw [List.length_append, hheader]
      omega
    have hcontent : ¬ (m.content ++ (zeros ((512 - m.content.length % 512) % 512) ++
        (ms.flatMap addfile ++ (close n ++ rest)))).length < m.content.length := by
      rw [List.length_append]
      omega
    rw [hbytes, readFrom, htake, hdrop, if_neg (not_or.2 ⟨hne, header_ne_zeros hm⟩), if_neg hlong, readHeader_header hm,
      Option.bind_eq_bind, Option.bind_some]
    dsimp only
    rw [if_neg hcontent, hlater, ih hms fuel (Nat.lt_of_succ_lt_succ hfuel), List.take_left' rfl]
    rfl

/-- An archive of plain members reads back as its members, whatever follows it. -/
theorem read_archive (hms : ∀ m ∈ ms, m.Plain) (rest : Bytes) : read (archive ms ++ rest) = some ms := by
  have hlength : ∀ ms : List Member, (∀ m ∈ ms, m.Plain) → ms.length ≤ (ms.flatMap addfile).length := by
    intro ms hms
    induction ms with
    | nil => exact Nat.le_refl 0
    | cons m ms ih =>
      obtain ⟨hm, hms⟩ := List.forall_mem_cons.1 hms
      have hle := ih hms
      rw [List.flatMap_cons, addfile, List.length_append, List.length_append, List.length_append, length_header hm,
        List.length_cons]
      omega
  rw [read, archive, List.append_assoc]
  refine readFrom_archive hms _ ?_ _ rest
  have hle := hlength ms hms
  rw [List.length_append]
  omega

end Tar
