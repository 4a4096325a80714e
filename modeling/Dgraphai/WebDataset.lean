import Dgraphai.Lib.JsonText
import Dgraphai.Lib.PyJson
import Dgraphai.Lib.PyText
import Dgraphai.Lib.Tar

/-!
# `stream_webdataset` (`streaming/formats.py`)

Every `shard_size` rows the archive is closed and another one begun, and all of them go into one response. A reader of
the response stops at the end marker of the first archive (`read_streamWebdataset`). So it gets the rows exactly if they
fit in one shard; with distinct sample keys this is the round trip (`webRoundTrips_iff`).
-/

namespace Dgraphai.Streaming

open Tar (Bytes)

/-- What is used of `tarfile`: the bytes of a member, those that close an archive at an offset, and the client's
reader. -/
structure TarFile where
  addfile : String → Bytes → Bytes
  close : ℕ → Bytes
  read : Bytes → Option (List (String × Bytes))

namespace TarFile
variable (T : TarFile)

def body (ms : List (String × Bytes)) : Bytes := ms.flatMap fun m => T.addfile m.1 m.2

def archive (ms : List (String × Bytes)) : Bytes := T.body ms ++ T.close (T.body ms).length

/-- An archive of these members reads back, whatever stands behind its end marker. -/
def ReadsBack (ms : List (String × Bytes)) : Prop := ∀ rest, T.read (T.archive ms ++ rest) = some ms

end TarFile

section
variable (T : TarFile) (repr : Json → String) (shardSize : ℕ)

/-- What an f-string inserts for a value; `repr` writes lists and dictionaries. -/
def formatted : Json → String
  | .null => "None"
  | .bool true => "True"
  | .bool false => "False"
  | .num n => String.ofList (JsonText.intText n)
  | .real text => text
  | .str s => s
  | j => repr j

/-- `:06d`. -/
def pad6 (n : ℕ) : String := String.ofList (List.leftpad 6 '0' (Nat.toDigits 10 n))

def sampleKey (shardIndex count : ℕ) (row : Json.Fields) : String :=
  formatted repr (Json.getD row "id" (.str (pad6 shardIndex ++ "_" ++ pad6 count)))

/-- `json.dumps(row, ensure_ascii=False).encode()`. -/
def jsonBytes (row : Json.Fields) : Bytes :=
  PyText.encode (JsonText.dumpsWith JsonText.escapeRaw .spaced (.obj row))

/-- The member of a row: its name and its content. -/
def sample (shardIndex count : ℕ) (row : Json.Fields) : String × Bytes :=
  (sampleKey repr shardIndex count row ++ ".json", jsonBytes row)

/-- The loop of `stream_webdataset` and what follows it; `written` has gone to the open archive. -/
def webdatasetLoop (written : Bytes) (count shardIndex : ℕ) : List Json.Fields → List Bytes
  | [] =>
    let data := written ++ T.close written.length
    if data = [] then [] else [data]
  | row :: rows =>
    let info := sample repr shardIndex count row
    let written := written ++ T.addfile info.1 info.2
    let count := count + 1
    if count % shardSize = 0 then
      (written ++ T.close written.length) :: webdatasetLoop [] count (shardIndex + 1) rows
    else webdatasetLoop written count shardIndex rows

/-- The chunks of `stream_webdataset`, for a `shard_size` of at least 1. -/
def streamWebdataset (rows : List Json.Fields) : List Bytes := webdatasetLoop T repr shardSize [] 0 0 rows

/-- The row in the content of a member. -/
def content (b : Bytes) : Option Json := (PyText.decode? b).bind JsonText.loads

/-- One member for each row, in order, with the row as its content and a name of its own. -/
structure ReadsAs (rows : List Json.Fields) (ms : List (String × Bytes)) : Prop where
  contents : (ms.map fun m => content m.2) = rows.map fun row => some (.obj row)
  distinct : (ms.map Prod.fst).Nodup

/-- The response, read as one archive, has the rows. -/
def WebRoundTrips (rows : List Json.Fields) : Prop :=
  ∃ ms, T.read (streamWebdataset T repr shardSize rows).flatten = some ms ∧ ReadsAs rows ms

/-- The members of rows in the first shard, from a count on. -/
def samples (count : ℕ) : List Json.Fields → List (String × Bytes)
  | [] => []
  | row :: rows => sample repr 0 count row :: samples (count + 1) rows

end

variable {T : TarFile} {repr : Json → String} {shardSize : ℕ} {rows : List Json.Fields}

/-! ### The first archive -/

theorem length_samples (count : ℕ) (rows : List Json.Fields) : (samples repr count rows).length = rows.length := by
  induction rows generalizing count with
  | nil => rfl
  | cons row rows ih => rw [samples, List.length_cons, ih, List.length_cons]

/-- The response begins with the archive that is open, closed at the border of the shard or the end of the rows. -/
theorem webdatasetLoop_flatten (written : Bytes) {count : ℕ} (hcount : count < shardSize) (rows : List Json.Fields) :
    ∃ rest, (webdatasetLoop T repr shardSize written count 0 rows).flatten =
      let bytes := written ++ T.body ((samples repr count rows).take (shardSize - count))
      bytes ++ T.close bytes.length ++ rest := by
  induction rows generalizing written count with
  | nil =>
    refine ⟨[], ?_⟩
    rw [webdatasetLoop, samples, List.take_nil, TarFile.body, List.flatMap_nil, List.append_nil, List.append_nil]
    split_ifs with hdata
    · exact hdata.symm
    · exact List.flatten_singleton
  | cons row rows ih =>
    obtain ⟨left, hleft⟩ : ∃ left, shardSize - count = left + 1 := ⟨shardSize - count - 1, by omega⟩
    have hbytes : written ++ T.body ((samples repr count (row :: rows)).take (left + 1)) =
        (written ++ T.addfile (sample repr 0 count row).1 (sample repr 0 count row).2) ++
          T.body ((samples repr (count + 1) rows).take left) := by
      rw [samples, List.take_succ_cons, TarFile.body, List.flatMap_cons, List.append_assoc]
      rfl
    rw [webdatasetLoop, hleft, hbytes]
    dsimp only
    split_ifs with hfull
    · -- the shard is full
      have hlast : left = 0 := by
        by_contra hne
        have hlt : count + 1 < shardSize := by omega
        rw [Nat.mod_eq_of_lt hlt] at hfull
        cases hfull
      rw [hlast, List.take_zero, TarFile.body, List.flatMap_nil, List.append_nil]
      exact ⟨_, List.flatten_cons⟩
    · have hlt : count + 1 < shardSize := by
        by_contra hge
        have heq : count + 1 = shardSize := by omega
        rw [heq, Nat.mod_self] at hfull
        exact hfull rfl
      obtain ⟨rest, hrest⟩ := ih (written ++ T.addfile (sample repr 0 count row).1 (sample repr 0 count row).2) hlt
      have hsub : shardSize - (count + 1) = left := by omega
      rw [hsub] at hrest
      exact ⟨rest, hrest⟩

/-- A client gets the members of the first shard. -/
theorem read_streamWebdataset (hpos : 0 < shardSize) (hread : T.ReadsBack ((samples repr 0 rows).take shardSize)) :
    T.read (streamWebdataset T repr shardSize rows).flatten = some ((samples repr 0 rows).take shardSize) := by
  obtain ⟨rest, hrest⟩ := @webdatasetLoop_flatten T repr shardSize [] 0 hpos rows
  rw [streamWebdataset, hrest, Nat.sub_zero, List.nil_append]
  exact hread rest

/-! ### Contents -/

theorem content_jsonBytes {row : Json.Fields} (h : JsonText.Representable (.obj row)) :
    content (jsonBytes row) = some (.obj row) := by
  rw [content, jsonBytes, PyText.decode?_encode, Option.bind_some,
    JsonText.loads_dumpsWith JsonText.escapes_escapeRaw h]

theorem content_samples (count : ℕ) (h : ∀ row ∈ rows, JsonText.Representable (.obj row)) :
    ((samples repr count rows).map fun m => content m.2) = rows.map fun row => some (.obj row) := by
  induction rows generalizing count with
  | nil => rfl
  | cons row rows ih =>
    obtain ⟨hrow, hrows⟩ := List.forall_mem_cons.1 h
    rw [samples, List.map_cons, ih _ hrows, List.map_cons, sample, content_jsonBytes hrow]

theorem readsAs_take_iff (h : ∀ row ∈ rows, JsonText.Representable (.obj row)) :
    ReadsAs rows ((samples repr 0 rows).take shardSize) ↔
      rows.length ≤ shardSize ∧ ((samples repr 0 rows).map Prod.fst).Nodup := by
  constructor
  · rintro ⟨hcontents, hdistinct⟩
    have hlength := congrArg List.length hcontents
    rw [List.length_map, List.length_map, List.length_take, length_samples] at hlength
    have hle : rows.length ≤ shardSize := by omega
    rw [List.take_of_length_le (by rw [length_samples]; exact hle)] at hdistinct
    exact ⟨hle, hdistinct⟩
  · rintro ⟨hle, hdistinct⟩
    rw [List.take_of_length_le (by rw [length_samples]; exact hle)]
    exact ⟨content_samples 0 h, hdistinct⟩

/-- The response reads back as its rows exactly if they fit in one shard and have names of their own there. -/
theorem webRoundTrips_iff (hpos : 0 < shardSize) (h : ∀ row ∈ rows, JsonText.Representable (.obj row))
    (hread : T.ReadsBack ((samples repr 0 rows).take shardSize)) :
    WebRoundTrips T repr shardSize rows ↔ rows.length ≤ shardSize ∧ ((samples repr 0 rows).map Prod.fst).Nodup := by
  rw [← readsAs_take_iff h, WebRoundTrips, read_streamWebdataset hpos hread]
  simp only [Option.some.injEq, exists_eq_left']

/-! ### Two rows in shards of one -/

/-- The format of plain members. -/
def plainTar : TarFile where
  addfile name content := Tar.addfile ⟨PyText.encode name.toList, content⟩
  close := Tar.close
  read b := (Tar.read b).bind fun ms =>
    ms.mapM fun m => (PyText.decode? m.name).map fun name => (String.ofList name, m.content)

theorem plainTar_readsBack {ms : List (String × Bytes)}
    (h : ∀ m ∈ ms, (Tar.Member.mk (PyText.encode m.1.toList) m.2).Plain) : plainTar.ReadsBack ms := by
  intro rest
  have harchive : plainTar.archive ms =
      Tar.archive (ms.map fun m => ⟨PyText.encode m.1.toList, m.2⟩) := by
    rw [TarFile.archive, TarFile.body, Tar.archive, List.flatMap_map]
    rfl
  have hplain : ∀ m ∈ ms.map fun m => Tar.Member.mk (PyText.encode m.1.toList) m.2, m.Plain := List.forall_mem_map.2 h
  show (Tar.read (plainTar.archive ms ++ rest)).bind _ = _
  rw [harchive, Tar.read_archive hplain, Option.bind_some]
  clear h harchive hplain
  induction ms with
  | nil => rfl
  | cons m ms ih =>
    rw [List.map_cons, List.mapM_cons, ih, PyText.decode?_encode, Option.map_some, String.ofList_toList]
    rfl

def twoRows : List Json.Fields := [[("id", .str "a")], [("size", .num 3)]]

theorem twoRows_representable : ∀ row ∈ twoRows, JsonText.Representable (.obj row) := by
  intro row hrow
  rw [JsonText.representable_obj]
  simp only [twoRows, List.mem_cons, List.not_mem_nil, or_false] at hrow
  rcases hrow with rfl | rfl
  all_goals
    intro p hp
    obtain rfl := List.mem_singleton.1 hp
    rw [JsonText.Representable]
    trivial

theorem twoRows_plain : ∀ m ∈ samples (fun _ => "") 0 twoRows, (Tar.Member.mk (PyText.encode m.1.toList) m.2).Plain := by
  intro m hm
  simp only [twoRows, samples, List.mem_cons, List.not_mem_nil, or_false] at hm
  rcases hm with rfl | rfl
  · exact Tar.Member.plain_of_all rfl (by decide) (by decide)
  · exact Tar.Member.plain_of_all rfl (by decide) (by decide)

theorem oneShard_roundTrips : WebRoundTrips plainTar (fun _ => "") 2 twoRows := by
  refine (webRoundTrips_iff (by decide) twoRows_representable ?_).2 ⟨by decide, by decide⟩
  exact plainTar_readsBack fun m hm => twoRows_plain m (List.mem_of_mem_take hm)

/-- The second row is behind the end marker. -/
theorem secondShard_lost : ¬ ∀ (T : TarFile) (repr : Json → String) (shardSize : ℕ) (rows : List Json.Fields),
    0 < shardSize → (∀ row ∈ rows, JsonText.Representable (.obj row)) →
      T.ReadsBack ((samples repr 0 rows).take shardSize) → WebRoundTrips T repr shardSize rows := by
  intro h
  have hread : plainTar.ReadsBack ((samples (fun _ => "") 0 twoRows).take 1) :=
    plainTar_readsBack fun m hm => twoRows_plain m (List.mem_of_mem_take hm)
  obtain ⟨ms, hms, hreads⟩ := h plainTar (fun _ => "") 1 twoRows (by decide) twoRows_representable hread
  rw [read_streamWebdataset (by decide) hread] at hms
  have hlength := congrArg List.length hreads.contents
  rw [← Option.some.inj hms] at hlength
  exact absurd hlength (by decide)

end Dgraphai.Streaming
