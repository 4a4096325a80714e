import Dgraphai.Lib.Base64

/-!
# `btoa` and `atob`

A browser's Base64: the characters stand for bytes, and one above U+00FF is an error. The decoder passes over blanks
and wants the alphabet otherwise. A text of bytes is decoded as it was (`atob_btoa`).
-/

namespace WebBase64

open Base64 (char value? encode)

def Latin1 (c : Char) : Prop := c.toNat ≤ 0xff

instance (c : Char) : Decidable (Latin1 c) := Nat.decLe _ _

/-- `none` is the `InvalidCharacterError`. -/
def btoa (s : List Char) : Option (List Char) :=
  if s.all fun c => decide (Latin1 c) then some (encode (s.map fun c => UInt8.ofNat c.toNat)) else none

def isSpace (c : Char) : Bool := c = ' ' || c = '\t' || c = '\n' || c = '\x0c' || c = '\r'

/-- Without one or two `=` at the end. -/
def dropPadding : List Char → List Char
  | [] => []
  | c :: s => if c = '=' ∧ (s = [] ∨ s = ['=']) then [] else c :: dropPadding s

/-- The bytes of six bits each; bits that are left over are dropped. -/
def group : List Nat → List UInt8
  | a :: b :: c :: d :: rest =>
    UInt8.ofNat (a * 4 + b / 16) :: UInt8.ofNat (b % 16 * 16 + c / 4) :: UInt8.ofNat (c % 4 * 64 + d) :: group rest
  | [a, b, c] => [UInt8.ofNat (a * 4 + b / 16), UInt8.ofNat (b % 16 * 16 + c / 4)]
  | [a, b] => [UInt8.ofNat (a * 4 + b / 16)]
  | _ => []

/-- `none` is the `InvalidCharacterError`. -/
def atob (s : List Char) : Option (List Char) :=
  let s := s.filter fun c => !isSpace c
  let s := if s.length % 4 = 0 then dropPadding s else s
  if s.length % 4 = 1 then none
  else (s.mapM value?).map fun ns => (group ns).map fun b => Char.ofNat b.toNat

/-- The numbers of six bits that bytes are written as. -/
def sextets : List UInt8 → List Nat
  | a :: b :: c :: rest =>
    a.toNat / 4 :: (a.toNat % 4 * 16 + b.toNat / 16) :: (b.toNat % 16 * 4 + c.toNat / 64) :: c.toNat % 64 :: sextets rest
  | [a, b] => [a.toNat / 4, a.toNat % 4 * 16 + b.toNat / 16, b.toNat % 16 * 4]
  | [a] => [a.toNat / 4, a.toNat % 4 * 16]
  | [] => []

variable {bs : List UInt8} {n : Nat} {s : List Char}

theorem sextets_lt (bs : List UInt8) : ∀ n ∈ sextets bs, n < 64 := by
  fun_induction sextets bs with
  | case1 a b c rest ih =>
    have ha := a.toNat_lt
    have hb := b.toNat_lt
    have hc := c.toNat_lt
    simp only [List.forall_mem_cons]
    exact ⟨by omega, by omega, by omega, by omega, ih⟩
  | case2 a b =>
    have ha := a.toNat_lt
    have hb := b.toNat_lt
    simp only [List.forall_mem_cons]
    exact ⟨by omega, by omega, by omega, List.forall_mem_nil _⟩
  | case3 a =>
    have ha := a.toNat_lt
    simp only [List.forall_mem_cons]
    exact ⟨by omega, by omega, List.forall_mem_nil _⟩
  | case4 => exact List.forall_mem_nil _

theorem group_sextets (bs : List UInt8) : group (sextets bs) = bs := by
  fun_induction sextets bs with
  | case1 a b c rest ih =>
    have ha := a.toNat_lt
    have hb := b.toNat_lt
    have hc := c.toNat_lt
    rw [group, ih, Base64.ofNat_toNat_of_eq (a := a) (by omega), Base64.ofNat_toNat_of_eq (a := b) (by omega),
      Base64.ofNat_toNat_of_eq (a := c) (by omega)]
  | case2 a b =>
    have ha := a.toNat_lt
    have hb := b.toNat_lt
    rw [group, Base64.ofNat_toNat_of_eq (a := a) (by omega), Base64.ofNat_toNat_of_eq (a := b) (by omega)]
  | case3 a =>
    have ha := a.toNat_lt
    rw [group, Base64.ofNat_toNat_of_eq (a := a) (by omega)]
  | case4 => rfl

theorem length_sextets (bs : List UInt8) : (sextets bs).length % 4 ≠ 1 := by
  fun_induction sextets bs with
  | case1 a b c rest ih =>
    simp only [List.length_cons]
    omega
  | case2 | case3 | case4 => simp

/-! ### Characters of the alphabet -/

theorem value?_char (h : n < 64) : value? (char n) = some n := by
  have hall : ∀ n < 64, value? (char n) = some n := by decide
  exact hall n h

theorem char_ne_padding (h : n < 64) : char n ≠ '=' := by
  have hall : ∀ n < 64, char n ≠ '=' := by decide
  exact hall n h

theorem isSpace_char (h : n < 64) : isSpace (char n) = false := by
  have hall : ∀ n < 64, isSpace (char n) = false := by decide
  exact hall n h

theorem dropPadding_char (h : n < 64) (s : List Char) : dropPadding (char n :: s) = char n :: dropPadding s :=
  if_neg fun hc => char_ne_padding h hc.1

theorem mapM_value? {ns : List Nat} (h : ∀ n ∈ ns, n < 64) : (ns.map char).mapM value? = some ns := by
  induction ns with
  | nil => rfl
  | cons n ns ih =>
    rw [List.forall_mem_cons] at h
    rw [List.map_cons, List.mapM_cons, value?_char h.1, ih h.2]
    rfl

/-! ### What was encoded -/

theorem encode_spec (bs : List UInt8) : (encode bs).length % 4 = 0 ∧ (∀ c ∈ encode bs, isSpace c = false) ∧
    dropPadding (encode bs) = (sextets bs).map char := by
  have hpad : isSpace '=' = false := rfl
  fun_induction sextets bs with
  | case1 a b c rest ih =>
    obtain ⟨hlength, hspace, hdrop⟩ := ih
    have ha := a.toNat_lt
    have hb := b.toNat_lt
    have hc := c.toNat_lt
    rw [encode]
    refine ⟨by simp only [List.length_cons]; omega, ?_, ?_⟩
    · simp only [List.forall_mem_cons]
      exact ⟨isSpace_char (by omega), isSpace_char (by omega), isSpace_char (by omega), isSpace_char (by omega), hspace⟩
    · rw [dropPadding_char (by omega), dropPadding_char (by omega), dropPadding_char (by omega),
        dropPadding_char (by omega), hdrop]
      rfl
  | case2 a b =>
    have ha := a.toNat_lt
    have hb := b.toNat_lt
    rw [encode]
    refine ⟨by simp, ?_, ?_⟩
    · simp only [List.forall_mem_cons]
      exact ⟨isSpace_char (by omega), isSpace_char (by omega), isSpace_char (by omega), hpad, List.forall_mem_nil _⟩
    · rw [dropPadding_char (by omega), dropPadding_char (by omega), dropPadding_char (by omega)]
      rfl
  | case3 a =>
    have ha := a.toNat_lt
    rw [encode]
    refine ⟨by simp, ?_, ?_⟩
    · simp only [List.forall_mem_cons]
      exact ⟨isSpace_char (by omega), isSpace_char (by omega), hpad, hpad, List.forall_mem_nil _⟩
    · rw [dropPadding_char (by omega), dropPadding_char (by omega)]
      rfl
  | case4 => exact ⟨rfl, List.forall_mem_nil _, rfl⟩

theorem atob_encode (bs : List UInt8) : atob (encode bs) = some (bs.map fun b => Char.ofNat b.toNat) := by
  obtain ⟨hlength, hspace, hdrop⟩ := encode_spec bs
  have hfilter : (encode bs).filter (fun c => !isSpace c) = encode bs :=
    List.filter_eq_self.2 fun c hc => by rw [hspace c hc]; rfl
  have hsextets : ((sextets bs).map char).length % 4 ≠ 1 := by
    rw [List.length_map]
    exact length_sextets bs
  simp only [atob]
  rw [hfilter, if_pos hlength, hdrop, if_neg hsextets, mapM_value? (sextets_lt bs), Option.map_some, group_sextets]

theorem all_latin1_iff : (s.all fun c => decide (Latin1 c)) = true ↔ ∀ c ∈ s, Latin1 c := by
  simp only [List.all_eq_true, decide_eq_true_iff]

/-- A text of bytes is encoded, and decoded as it was; no other text is encoded. -/
theorem atob_btoa (s : List Char) : (∃ t, btoa s = some t ∧ atob t = some s) ↔ ∀ c ∈ s, Latin1 c := by
  rw [btoa]
  constructor
  · rintro ⟨t, ht, -⟩
    split_ifs at ht with hall
    exact all_latin1_iff.1 hall
  · intro hall
    refine ⟨_, if_pos (all_latin1_iff.2 hall), ?_⟩
    rw [atob_encode, List.map_map]
    refine congrArg some ((List.map_congr_left fun c hc => ?_).trans (List.map_id s))
    have hlt : c.toNat < 256 := Nat.lt_succ_of_le (hall c hc)
    show Char.ofNat (UInt8.ofNat c.toNat).toNat = c
    rw [UInt8.toNat_ofNat_of_lt' hlt, Char.ofNat_toNat]

theorem btoa_eq_none_iff : btoa s = none ↔ ¬ ∀ c ∈ s, Latin1 c := by
  rw [btoa, ← all_latin1_iff]
  split_ifs with hall
  · exact iff_of_false nofun (not_not_intro hall)
  · exact iff_of_true rfl hall

end WebBase64
