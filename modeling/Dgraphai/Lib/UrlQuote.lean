import Dgraphai.Lib.PyText

/-!
# Percent encoding

`quote keep t` writes the bytes of a text, each as itself where it is a character kept and else as `%XX`. Reading such a
text as a form value gives the text back (`formDecode_quote`), and no character but those kept, digits, letters and `%`
stands in it (`mem_quote`), so that a mark which is none of them still ends it.
-/

namespace UrlQuote

open Cypher (Text)
open PyText

/-- A digit of base 16 in capitals. -/
def hexDigit (n : ℕ) : Char := Char.ofNat (if n < 10 then 48 + n else 55 + n)

/-- One byte in a URL. -/
def quoteByte (keep : Char → Bool) (b : UInt8) : Text :=
  if b.toNat < 128 ∧ keep (Char.ofNat b.toNat) then [Char.ofNat b.toNat]
  else ['%', hexDigit (b.toNat / 16), hexDigit (b.toNat % 16)]

def quote (keep : Char → Bool) (t : Text) : Text := (encode t).flatMap (quoteByte keep)

/-- The bytes of a text with escapes; a `%` that begins no escape stands for itself. -/
def unquoteBytes : Text → List UInt8
  | '%' :: h :: l :: cs =>
    match Cypher.hexValue h, Cypher.hexValue l with
    | some x, some y => UInt8.ofNat (16 * x + y) :: unquoteBytes cs
    | _, _ => encode ['%'] ++ unquoteBytes (h :: l :: cs)
  | c :: cs => encode [c] ++ unquoteBytes cs
  | [] => []

/-- A value of a query string, in which `+` is a blank. -/
def formDecode (t : Text) : Option Text := decode? (unquoteBytes (t.map fun c => if c = '+' then ' ' else c))

/-! ### One byte -/

variable {keep : Char → Bool} {b : UInt8} {c : Char} {t cs : Text}

theorem hexValue_hexDigit : ∀ n < 16, Cypher.hexValue (hexDigit n) = some n := by decide

theorem hexDigit_ne : ∀ n < 16, hexDigit n ≠ '+' ∧ (hexDigit n).isAlphanum = true := by decide

theorem utf8EncodeChar_ofNat : ∀ n < 128, String.utf8EncodeChar (Char.ofNat n) = [UInt8.ofNat n] := by decide

theorem encode_ofNat {n : ℕ} (h : n < 128) : encode [Char.ofNat n] = [UInt8.ofNat n] := by
  have hbytes : encode [Char.ofNat n] = [Char.ofNat n].utf8Encode.data.toList := rfl
  rw [hbytes, List.utf8Encode_singleton, utf8EncodeChar_ofNat n h, List.toList_data_toByteArray]

theorem unquoteBytes_cons (hc : c ≠ '%') : unquoteBytes (c :: cs) = encode [c] ++ unquoteBytes cs := by
  rw [unquoteBytes]
  intro h l cs' heq
  exact absurd heq hc

theorem unquoteBytes_escape {m n : ℕ} (hm : m < 16) (hn : n < 16) :
    unquoteBytes ('%' :: hexDigit m :: hexDigit n :: cs) = UInt8.ofNat (16 * m + n) :: unquoteBytes cs := by
  rw [unquoteBytes, hexValue_hexDigit m hm, hexValue_hexDigit n hn]

theorem unquoteBytes_quoteByte (hkeep : keep '%' = false) :
    unquoteBytes (quoteByte keep b ++ cs) = b :: unquoteBytes cs := by
  have hlt : b.toNat < 256 := b.toNat_lt
  rw [quoteByte]
  split_ifs with h
  · have hc : Char.ofNat b.toNat ≠ '%' := fun hc => by rw [hc, hkeep] at h; simp at h
    rw [List.singleton_append, unquoteBytes_cons hc, encode_ofNat h.1, UInt8.ofNat_toNat]
    rfl
  · have hvalue : 16 * (b.toNat / 16) + b.toNat % 16 = b.toNat := Nat.div_add_mod b.toNat 16
    show unquoteBytes ('%' :: hexDigit (b.toNat / 16) :: hexDigit (b.toNat % 16) :: cs) = _
    rw [unquoteBytes_escape (by omega) (by omega), hvalue, UInt8.ofNat_toNat]

theorem mem_quoteByte (h : c ∈ quoteByte keep b) : c = '%' ∨ c.isAlphanum = true ∨ keep c = true := by
  have hlt : b.toNat < 256 := b.toNat_lt
  rw [quoteByte] at h
  split_ifs at h with hkept
  · obtain rfl := List.mem_singleton.1 h
    exact .inr (.inr hkept.2)
  · simp only [List.mem_cons, List.not_mem_nil, or_false] at h
    rcases h with rfl | rfl | rfl
    · exact .inl rfl
    · exact .inr (.inl (hexDigit_ne _ (by omega)).2)
    · exact .inr (.inl (hexDigit_ne _ (by omega)).2)

/-! ### A text -/

theorem mem_quote (h : c ∈ quote keep t) : c = '%' ∨ c.isAlphanum = true ∨ keep c = true := by
  obtain ⟨b, -, hc⟩ := List.mem_flatMap.1 h
  exact mem_quoteByte hc

/-- A mark that is not kept stands in no text that is quoted. -/
theorem not_mem_quote (hpercent : c ≠ '%') (halphanum : c.isAlphanum = false) (hkeep : keep c = false) :
    c ∉ quote keep t := by
  intro h
  rcases mem_quote h with h | h | h
  · exact hpercent h
  · simp [halphanum] at h
  · simp [hkeep] at h

theorem unquoteBytes_flatMap (hkeep : keep '%' = false) (bs : List UInt8) :
    unquoteBytes (bs.flatMap (quoteByte keep)) = bs := by
  induction bs with
  | nil => rfl
  | cons b bs ih => rw [List.flatMap_cons, unquoteBytes_quoteByte hkeep, ih]

theorem formDecode_quote (hpercent : keep '%' = false) (hplus : keep '+' = false) (t : Text) :
    formDecode (quote keep t) = some t := by
  have hnot : '+' ∉ quote keep t := not_mem_quote (by decide) rfl hplus
  have hmap : (quote keep t).map (fun c => if c = '+' then ' ' else c) = quote keep t :=
    (List.map_congr_left fun c hc => if_neg (ne_of_mem_of_not_mem hc hnot)).trans (List.map_id _)
  rw [formDecode, hmap, quote, unquoteBytes_flatMap hpercent, decode?_encode]

theorem encode_cons (c : Char) (t : Text) : encode (c :: t) = encode [c] ++ encode t := by
  have hbytes : ∀ t : Text, encode t = t.utf8Encode.data.toList := fun _ => rfl
  rw [hbytes, hbytes, hbytes, List.utf8Encode_cons, ByteArray.data_append, Array.toList_append]

theorem unquoteBytes_of_not_mem (h : '%' ∉ t) : unquoteBytes t = encode t := by
  induction t with
  | nil => rfl
  | cons c t ih =>
    obtain ⟨hc, ht⟩ := List.ne_and_not_mem_of_not_mem_cons h
    rw [unquoteBytes_cons hc.symm, ih ht, ← encode_cons]

/-- A text without escapes stands for itself. -/
theorem formDecode_of_not_mem (hpercent : '%' ∉ t) (hplus : '+' ∉ t) : formDecode t = some t := by
  have hmap : t.map (fun c => if c = '+' then ' ' else c) = t :=
    (List.map_congr_left fun c hc => if_neg (ne_of_mem_of_not_mem hc hplus)).trans (List.map_id _)
  rw [formDecode, hmap, unquoteBytes_of_not_mem hpercent, decode?_encode]

/-! ### Query strings -/

/-- What stands between `?` and `#`. -/
def search (url : Text) : Text := ((url.takeWhile (· ≠ '#')).dropWhile (· ≠ '?')).drop 1

/-- The fields of a query string, each cut at its first `=`. -/
def fields (s : Text) : List (Text × Text) :=
  (s.splitOn '&').map fun f => (f.takeWhile (· ≠ '='), (f.dropWhile (· ≠ '=')).drop 1)

/-- The value of the first field with this name. -/
def param (name url : Text) : Option Text :=
  ((fields (search url)).find? fun f => formDecode f.1 = some name).bind fun f => formDecode f.2

variable {path name value s : Text}

theorem forall_ne (h : c ∉ t) : ∀ d ∈ t, decide (d ≠ c) = true :=
  fun _ hd => decide_eq_true (ne_of_mem_of_not_mem hd h)

theorem takeWhile_ne (h : c ∉ t) : t.takeWhile (· ≠ c) = t := List.takeWhile_eq_self_iff.2 (forall_ne h)

theorem takeWhile_ne_append_cons (h : c ∉ t) : (t ++ c :: cs).takeWhile (· ≠ c) = t := by
  rw [List.takeWhile_append_of_pos (forall_ne h), List.takeWhile_cons_of_neg (by simp), List.append_nil]

theorem dropWhile_ne_append_cons (h : c ∉ t) : ((t ++ c :: cs).dropWhile (· ≠ c)).drop 1 = cs := by
  rw [List.dropWhile_append_of_pos (forall_ne h), List.dropWhile_cons_of_neg (by simp), List.drop_one, List.tail_cons]

theorem search_append (hpath : '?' ∉ path) (hhash : '#' ∉ path ++ '?' :: s) : search (path ++ '?' :: s) = s := by
  rw [search, takeWhile_ne hhash, dropWhile_ne_append_cons hpath]

theorem fields_append (s t : Text) : fields (s ++ '&' :: t) = fields s ++ fields t := by
  rw [fields, List.splitOn_append_cons_self, List.map_append]
  rfl

theorem fields_single (hname : '=' ∉ name) (hamp : '&' ∉ name ++ '=' :: value) :
    fields (name ++ '=' :: value) = [(name, value)] := by
  rw [fields, List.splitOn_eq_singleton hamp, List.map_singleton, takeWhile_ne_append_cons hname,
    dropWhile_ne_append_cons hname]

variable {url n : Text} {f : Text × Text} {fs : List (Text × Text)}

theorem param_of_name (h : fields (search url) = f :: fs) (hname : formDecode f.1 = some n) :
    param n url = formDecode f.2 := by
  rw [param, h, List.find?_cons]
  simp [hname]

theorem param_of_name_ne (h : fields (search url) = f :: fs) (hname : formDecode f.1 ≠ some n) :
    param n url = (fs.find? fun f => formDecode f.1 = some n).bind fun f => formDecode f.2 := by
  rw [param, h, List.find?_cons]
  simp [hname]

end UrlQuote
