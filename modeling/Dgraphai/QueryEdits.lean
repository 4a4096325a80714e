import Dgraphai.QueryBuilder
import Dgraphai.Lib.Runs

/-!
# Editing a query (`web/src/pages/QueryBuilder.tsx`)

Relationships refer to nodes by names that can be edited, and new nodes are numbered by counters that no link holds.
`consistent_iff` says for which sequences of edits and reloads the references and the numbers stay right: where no node
with a relationship gets another name, and where no number comes a second time.
-/

namespace Dgraphai.QueryBuilder

open Cypher (Text)
open WebBase64 (Latin1)

/-! ### Edits of the state -/

namespace BuilderState

def addNode (s : BuilderState) (n : NodeClause) : BuilderState := { s with nodes := s.nodes ++ [n] }

/-- The relationships that go are those of the alias; a node without one goes by its id. -/
def removeNode (s : BuilderState) (id : String) : BuilderState :=
  let removed := (s.nodes.find? (·.id = id)).map (·.alias)
  { s with
    nodes := s.nodes.filter (·.id ≠ id)
    relationships := s.relationships.filter fun r => some r.source ≠ removed ∧ some r.target ≠ removed }

def updateNodeAlias (s : BuilderState) (id name : String) : BuilderState :=
  { s with nodes := s.nodes.map fun n => if n.id = id then { n with «alias» := name } else n }

def addRelationship (s : BuilderState) (id : String) : BuilderState :=
  match s.nodes with
  | first :: second :: _ =>
    { s with relationships := s.relationships ++ [⟨id, "CONTAINS", first.name, second.name, true⟩] }
  | _ => s

def removeRelationship (s : BuilderState) (id : String) : BuilderState :=
  { s with relationships := s.relationships.filter (·.id ≠ id) }

end BuilderState

/-! ### The page -/

structure Page where
  /-- `none` where an update has thrown and the page is gone. -/
  state : Option BuilderState
  nodeIdRef : ℕ
  relIdRef : ℕ
  /-- `state` of the address. -/
  link : Option Text

/-- `initState`; `none` for a link that holds no state. -/
def initState : Option Text → Option BuilderState
  | none | some [] => some defaultState
  | some encoded => BuilderState.ofJson? (decodeState encoded)

/-- The page at an address. -/
def Page.load (link : Option Text) : Page := ⟨initState link, 0, 0, link⟩

/-- `setState`: the update throws where there is no link. -/
def Page.setState (p : Page) (updater : BuilderState → BuilderState) : Page :=
  match p.state with
  | none => p
  | some s =>
    match encodeState (updater s) with
    | some encoded => { p with state := some (updater s), link := some encoded }
    | none => { p with state := none }

/-- What `addNode` adds; `[0]` of an empty text is `undefined`. -/
def newNode (lower : String → String) (count : ℕ) (type : String) : NodeClause :=
  let letter := match (lower type).toList with
    | [] => "undefined"
    | c :: _ => String.ofList [c]
  ⟨"n" ++ toString count, type, letter ++ toString (count + 1), []⟩

inductive Op where
  | addNode (type : String)
  | removeNode (id : String)
  | updateNodeAlias (id name : String)
  | addRelationship
  | removeRelationship (id : String)
  | reload

/-- `lower` is `toLowerCase`. -/
def Page.step (lower : String → String) (p : Page) : Op → Page
  | .addNode type =>
    { p with nodeIdRef := p.nodeIdRef + 1 }.setState (·.addNode (newNode lower p.nodeIdRef type))
  | .removeNode id => p.setState (·.removeNode id)
  | .updateNodeAlias id name => p.setState (·.updateNodeAlias id name)
  | .addRelationship =>
    if p.state.all (·.nodes.length < 2) then p
    else { p with relIdRef := p.relIdRef + 1 }.setState (·.addRelationship ("r" ++ toString p.relIdRef))
  | .removeRelationship id => p.setState (·.removeRelationship id)
  | .reload => Page.load p.link

/-! ### Consistent states -/

/-- `aliases` of the page. -/
def BuilderState.names (s : BuilderState) : List String := s.nodes.map (·.name)

structure BuilderState.Consistent (s : BuilderState) : Prop where
  ids : (s.nodes.map (·.id)).Nodup
  names : s.names.Nodup
  ends : ∀ r ∈ s.relationships, r.source ∈ s.names ∧ r.target ∈ s.names

def RelationshipClause.Touches (r : RelationshipClause) (name : String) : Prop := r.source = name ∨ r.target = name

instance (r : RelationshipClause) (name : String) : Decidable (r.Touches name) := inferInstanceAs (Decidable (_ ∨ _))

def BuilderState.Touched (s : BuilderState) (name : String) : Prop := ∃ r ∈ s.relationships, r.Touches name

instance (s : BuilderState) (name : String) : Decidable (s.Touched name) := inferInstanceAs (Decidable (∃ _ ∈ _, _))

/-- The name of a node with another alias. -/
def NodeClause.renamed (n : NodeClause) (name : String) : String := if name = "" then n.id else name

namespace BuilderState

variable {s : BuilderState} {n : NodeClause} {id name : String}

theorem Consistent.eq_of_id (h : s.Consistent) {m : NodeClause} (hn : n ∈ s.nodes) (hm : m ∈ s.nodes)
    (hid : n.id = m.id) : n = m := List.inj_on_of_nodup_map h.ids hn hm hid

theorem Consistent.eq_of_name (h : s.Consistent) {m : NodeClause} (hn : n ∈ s.nodes) (hm : m ∈ s.nodes)
    (hname : n.name = m.name) : n = m := List.inj_on_of_nodup_map h.names hn hm hname

theorem consistent_addNode (h : s.Consistent) :
    (s.addNode n).Consistent ↔ n.id ∉ s.nodes.map (·.id) ∧ n.name ∉ s.names := by
  have hnames : (s.addNode n).names = s.names ++ [n.name] := by simp [names, addNode]
  constructor
  · rintro ⟨hids, hnodup, -⟩
    rw [addNode, List.map_append, List.map_singleton, ← List.concat_eq_append, List.nodup_concat] at hids
    rw [hnames, ← List.concat_eq_append, List.nodup_concat] at hnodup
    exact ⟨hids.1, hnodup.1⟩
  · rintro ⟨hid, hname⟩
    refine ⟨?_, ?_, fun r hr => ?_⟩
    · rw [addNode, List.map_append, List.map_singleton, ← List.concat_eq_append, List.nodup_concat]
      exact ⟨hid, h.ids⟩
    · rw [hnames, ← List.concat_eq_append, List.nodup_concat]
      exact ⟨hname, h.names⟩
    · rw [hnames]
      exact (h.ends r hr).imp (List.mem_append_left _) (List.mem_append_left _)

theorem consistent_addRelationship (h : s.Consistent) : (s.addRelationship id).Consistent := by
  rw [addRelationship]
  split
  · rename_i first second rest hnodes
    refine ⟨h.ids, h.names, fun r hr => ?_⟩
    rcases List.mem_append.1 hr with hr | hr
    · exact h.ends r hr
    · rw [List.mem_singleton.1 hr]
      simp [names, hnodes]
  · exact h

theorem consistent_removeRelationship (h : s.Consistent) : (s.removeRelationship id).Consistent :=
  ⟨h.ids, h.names, fun r hr => h.ends r (List.mem_filter.1 hr).1⟩

theorem removeNode_of_not_mem (h : ∀ n ∈ s.nodes, n.id ≠ id) : s.removeNode id = s := by
  have hfind : s.nodes.find? (·.id = id) = none := List.find?_eq_none.2 fun n hn => by simp [h n hn]
  have hnodes : s.nodes.filter (·.id ≠ id) = s.nodes := List.filter_eq_self.2 fun n hn => by simp [h n hn]
  have hrels : s.relationships.filter (fun r => some r.source ≠ (none : Option String) ∧ some r.target ≠ none) =
      s.relationships := List.filter_eq_self.2 fun r _ => by simp
  rw [removeNode, hfind, hnodes, Option.map_none, hrels]

theorem Consistent.find?_id (h : s.Consistent) (hn : n ∈ s.nodes) : s.nodes.find? (·.id = n.id) = some n := by
  cases hfind : s.nodes.find? (·.id = n.id) with
  | none => exact absurd (decide_eq_true rfl) (List.find?_eq_none.1 hfind n hn)
  | some m =>
    have hid : m.id = n.id := by simpa using List.find?_some hfind
    rw [h.eq_of_id (List.mem_of_find?_eq_some hfind) hn hid]

/-- The relationships of a node go with it if its alias is their end. -/
theorem consistent_removeNode (id : String) (h : s.Consistent) (hids : ∀ n ∈ s.nodes, n.id ≠ "") :
    (s.removeNode id).Consistent ↔ ∀ n ∈ s.nodes, n.id = id → n.alias ≠ "" ∨ ¬ s.Touched n.name := by
  by_cases hmem : ∃ n ∈ s.nodes, n.id = id
  · obtain ⟨n, hn, rfl⟩ := hmem
    have hnodes : (s.removeNode n.id).nodes = s.nodes.filter (·.id ≠ n.id) := rfl
    have hrels : ∀ r, r ∈ (s.removeNode n.id).relationships ↔ r ∈ s.relationships ∧ ¬ r.Touches n.alias := by
      intro r
      simp [removeNode, h.find?_id hn, RelationshipClause.Touches]
    have hnames : ∀ x, x ∈ (s.removeNode n.id).names ↔ x ∈ s.names ∧ x ≠ n.name := by
      intro x
      simp only [names, hnodes, List.mem_map, List.mem_filter, decide_eq_true_eq]
      constructor
      · rintro ⟨m, ⟨hm, hne⟩, rfl⟩
        exact ⟨⟨m, hm, rfl⟩, fun hname => hne (congrArg _ (h.eq_of_name hm hn hname))⟩
      · rintro ⟨⟨m, hm, rfl⟩, hne⟩
        exact ⟨m, ⟨hm, fun hid => hne (congrArg _ (h.eq_of_id hm hn hid))⟩, rfl⟩
    constructor
    · intro hc m hm hid
      obtain rfl := h.eq_of_id hm hn hid
      refine or_iff_not_imp_left.2 fun halias => ?_
      rw [not_not] at halias
      rintro ⟨r, hr, htouch⟩
      -- no end is empty, so the relationship stays
      have hstays : r ∈ (s.removeNode m.id).relationships := by
        refine (hrels r).2 ⟨hr, ?_⟩
        rw [halias]
        have hends := h.ends r hr
        simp only [names, List.mem_map] at hends
        obtain ⟨⟨a, ha, hsource⟩, ⟨b, hb, htarget⟩⟩ := hends
        have hname : ∀ k ∈ s.nodes, k.name ≠ "" := by
          intro k hk
          rw [NodeClause.name]
          split_ifs with hk'
          · exact hids k hk
          · exact hk'
        rintro (hempty | hempty)
        · exact hname a ha (hsource.trans hempty)
        · exact hname b hb (htarget.trans hempty)
      obtain ⟨hsource, htarget⟩ := hc.ends r hstays
      rcases htouch with hend | hend
      · exact ((hnames _).1 hsource).2 hend
      · exact ((hnames _).1 htarget).2 hend
    · intro hsafe
      refine ⟨?_, ?_, fun r hr => ?_⟩
      · rw [hnodes]
        exact h.ids.sublist (List.filter_sublist.map _)
      · exact h.names.sublist (List.filter_sublist.map _)
      · obtain ⟨hr, hkept⟩ := (hrels r).1 hr
        have huntouched : ¬ r.Touches n.name := by
          rcases hsafe n hn rfl with halias | hfree
          · rwa [NodeClause.name, if_neg halias]
          · exact fun htouch => hfree ⟨r, hr, htouch⟩
        obtain ⟨hsource, htarget⟩ := h.ends r hr
        exact ⟨(hnames _).2 ⟨hsource, fun heq => huntouched (.inl heq)⟩,
          (hnames _).2 ⟨htarget, fun heq => huntouched (.inr heq)⟩⟩
  · have hne : ∀ n ∈ s.nodes, n.id ≠ id := fun n hn hid => hmem ⟨n, hn, hid⟩
    rw [removeNode_of_not_mem hne]
    exact iff_of_true h fun n hn hid => absurd hid (hne n hn)

theorem updateNodeAlias_of_not_mem (h : ∀ n ∈ s.nodes, n.id ≠ id) : s.updateNodeAlias id name = s := by
  have hnodes : (s.nodes.map fun n => if n.id = id then { n with «alias» := name } else n) = s.nodes :=
    (List.map_congr_left fun n hn => if_neg (h n hn)).trans (List.map_id _)
  rw [updateNodeAlias, hnodes]

/-- The names after a node got another one. -/
theorem names_updateNodeAlias : (s.updateNodeAlias id name).names =
    s.nodes.map fun n => if n.id = id then n.renamed name else n.name := by
  rw [names, updateNodeAlias, List.map_map]
  refine List.map_congr_left fun n _ => ?_
  simp only [Function.comp]
  split_ifs <;> rfl

theorem consistent_updateNodeAlias (id name : String) (h : s.Consistent) : (s.updateNodeAlias id name).Consistent ↔
    ∀ n ∈ s.nodes, n.id = id → (∀ m ∈ s.nodes, m.id ≠ id → m.name ≠ n.renamed name) ∧
      (n.renamed name = n.name ∨ ¬ s.Touched n.name) := by
  by_cases hmem : ∃ n ∈ s.nodes, n.id = id
  · obtain ⟨n, hn, rfl⟩ := hmem
    have hids : (s.updateNodeAlias n.id name).nodes.map (·.id) = s.nodes.map (·.id) := by
      rw [updateNodeAlias, List.map_map]
      refine List.map_congr_left fun m _ => ?_
      simp only [Function.comp]
      split_ifs <;> rfl
    have hnames : ∀ x, x ∈ (s.updateNodeAlias n.id name).names ↔
        x = n.renamed name ∨ x ∈ s.names ∧ x ≠ n.name := by
      intro x
      rw [names_updateNodeAlias]
      simp only [names, List.mem_map]
      constructor
      · rintro ⟨m, hm, rfl⟩
        split_ifs with hid
        · rw [h.eq_of_id hm hn hid]
          exact .inl rfl
        · exact .inr ⟨⟨m, hm, rfl⟩, fun hname => hid (congrArg _ (h.eq_of_name hm hn hname))⟩
      · rintro (rfl | ⟨⟨m, hm, rfl⟩, hne⟩)
        · exact ⟨n, hn, if_pos rfl⟩
        · exact ⟨m, hm, if_neg fun hid => hne (congrArg _ (h.eq_of_id hm hn hid))⟩
    constructor
    · intro hc m hm hid
      obtain rfl := h.eq_of_id hm hn hid
      refine ⟨fun k hk hne hname => ?_, or_iff_not_imp_right.2 fun htouched => ?_⟩
      · have hnodup := hc.names
        rw [names_updateNodeAlias] at hnodup
        have heq : k = m := List.inj_on_of_nodup_map hnodup hk hm (by rw [if_neg hne, if_pos rfl, hname])
        exact hne (congrArg _ heq)
      · obtain ⟨r, hr, htouch⟩ := not_not.1 htouched
        obtain ⟨hsource, htarget⟩ := hc.ends r hr
        rcases htouch with hend | hend
        · rw [hend, hnames] at hsource
          exact hsource.elim Eq.symm fun hother => absurd rfl hother.2
        · rw [hend, hnames] at htarget
          exact htarget.elim Eq.symm fun hother => absurd rfl hother.2
    · intro hsafe
      obtain ⟨hfree, hkept⟩ := hsafe n hn rfl
      refine ⟨hids ▸ h.ids, ?_, fun r hr => ?_⟩
      · rw [names_updateNodeAlias]
        refine (List.nodup_map_iff_inj_on h.ids.of_map).2 fun a ha b hb heq => ?_
        split_ifs at heq with hida hidb hidb
        · exact h.eq_of_id ha hb (hida.trans hidb.symm)
        · rw [h.eq_of_id ha hn hida] at heq
          exact absurd heq.symm (hfree b hb hidb)
        · rw [h.eq_of_id hb hn hidb] at heq
          exact absurd heq (hfree a ha hida)
        · exact h.eq_of_name ha hb heq
      · have hend : ∀ x, x ∈ s.names → r.Touches x → x ∈ (s.updateNodeAlias n.id name).names := by
          intro x hx htouch
          rw [hnames]
          by_cases hxn : x = n.name
          · exact .inl (hkept.elim (fun heq => hxn.trans heq.symm) fun hfree => absurd ⟨r, hr, hxn ▸ htouch⟩ hfree)
          · exact .inr ⟨hx, hxn⟩
        obtain ⟨hsource, htarget⟩ := h.ends r hr
        exact ⟨hend _ hsource (.inl rfl), hend _ htarget (.inr rfl)⟩
  · have hne : ∀ n ∈ s.nodes, n.id ≠ id := fun n hn hid => hmem ⟨n, hn, hid⟩
    rw [updateNodeAlias_of_not_mem hne]
    exact iff_of_true h fun n hn hid => absurd hid (hne n hn)

/-! ### States with a link -/

theorem plain_addNode (h : s.Plain) (hn : ∀ x ∈ [n.id, n.type, n.alias], ∀ c ∈ x.toList, Latin1 c) (hf : n.filters = []) :
    (s.addNode n).Plain := by
  intro x hx
  simp only [strings, addNode, List.flatMap_append, List.flatMap_singleton, hf, List.flatMap_nil, List.mem_append] at hx
  rcases hx with (hx | hx) | hx
  · exact h x (List.mem_append_left _ hx)
  · exact hn x hx
  · exact h x (List.mem_append_right _ hx)

theorem plain_removeNode (h : s.Plain) : (s.removeNode id).Plain := by
  intro x hx
  simp only [strings, removeNode, List.mem_append, List.mem_flatMap, List.mem_filter] at hx
  rcases hx with ⟨n, ⟨hn, -⟩, hx⟩ | ⟨r, ⟨hr, -⟩, hx⟩
  · exact h x (List.mem_append_left _ (List.mem_flatMap.2 ⟨n, hn, hx⟩))
  · exact h x (List.mem_append_right _ (List.mem_flatMap.2 ⟨r, hr, hx⟩))

theorem plain_updateNodeAlias (h : s.Plain) (hname : ∀ c ∈ name.toList, Latin1 c) : (s.updateNodeAlias id name).Plain := by
  intro x hx
  rcases List.mem_append.1 hx with hx | hx
  · obtain ⟨m, hm, hx⟩ := List.mem_flatMap.1 hx
    obtain ⟨n, hn, rfl⟩ := List.mem_map.1 hm
    have hold : ∀ y ∈ n.id :: n.type :: n.alias :: n.filters.flatMap fun f => [f.id, f.field, f.op, f.value],
        ∀ c ∈ y.toList, Latin1 c :=
      fun y hy => h y (List.mem_append_left _ (List.mem_flatMap.2 ⟨n, hn, hy⟩))
    simp only [List.forall_mem_cons] at hold
    split_ifs at hx with hid
    · rcases List.mem_cons.1 hx with rfl | hx
      · exact hold.1
      · rcases List.mem_cons.1 hx with rfl | hx
        · exact hold.2.1
        · rcases List.mem_cons.1 hx with rfl | hx
          · exact hname
          · exact hold.2.2.2 x hx
    · exact h x (List.mem_append_left _ (List.mem_flatMap.2 ⟨n, hn, hx⟩))
  · exact h x (List.mem_append_right _ hx)

end BuilderState

/-! ### Runs -/

variable {lower : String → String} {s : BuilderState} {p : Page}

/-- What an edit has to meet: a new node has a new id and a new name, a node that goes by its id has no relationship
when it goes, and a node with a relationship keeps its name. An edit that throws is of no matter. -/
def Op.Safe (lower : String → String) (count : ℕ) (s : BuilderState) : Op → Prop
  | .addNode type =>
    let n := newNode lower count type
    (∀ x ∈ [n.type, n.alias], ∀ c ∈ x.toList, Latin1 c) → n.id ∉ s.nodes.map (·.id) ∧ n.name ∉ s.names
  | .removeNode id => ∀ n ∈ s.nodes, n.id = id → n.alias ≠ "" ∨ ¬ s.Touched n.name
  | .updateNodeAlias id name => (∀ c ∈ name.toList, Latin1 c) →
    ∀ n ∈ s.nodes, n.id = id → (∀ m ∈ s.nodes, m.id ≠ id → m.name ≠ n.renamed name) ∧
      (n.renamed name = n.name ∨ ¬ s.Touched n.name)
  | .addRelationship | .removeRelationship _ | .reload => True

def Page.Safe (lower : String → String) (p : Page) (op : Op) : Prop :=
  ∀ s, p.state = some s → op.Safe lower p.nodeIdRef s

def Page.Consistent (p : Page) : Prop := ∀ s, p.state = some s → s.Consistent

/-- The address holds the state, also where the page is gone. -/
structure Page.Holds (p : Page) (s : BuilderState) : Prop where
  link : initState p.link = some s
  shown : p.state = none ∨ p.state = some s
  consistent : s.Consistent
  plain : s.Plain
  ids : ∀ n ∈ s.nodes, n.id ≠ ""

theorem Page.Holds.page (h : p.Holds s) : p.Consistent := by
  intro t ht
  rcases h.shown with hs | hs
  · rw [hs] at ht
    cases ht
  · obtain rfl := Option.some.inj (ht.symm.trans hs)
    exact h.consistent

theorem initState_of_encodeState {encoded : Text} (h : encodeState s = some encoded) :
    initState (some encoded) = some s := by
  have hdecode := decodeState_of_encodeState h
  cases encoded with
  | nil =>
    have hdefault : defaultState.toJson = s.toJson := hdecode
    have hread := congrArg BuilderState.ofJson? hdefault
    rwa [BuilderState.ofJson?_toJson, BuilderState.ofJson?_toJson] at hread
  | cons c encoded =>
    show BuilderState.ofJson? (decodeState (c :: encoded)) = some s
    rw [hdecode, BuilderState.ofJson?_toJson]

theorem holds_load_none : (Page.load none).Holds defaultState where
  link := rfl
  shown := .inr rfl
  consistent := ⟨List.nodup_nil, List.nodup_nil, nofun⟩
  plain := nofun
  ids := nofun

def Page.Sound (p : Page) : Prop := ∃ s, p.Holds s

theorem sound_load_none : (Page.load none).Sound := ⟨_, holds_load_none⟩

theorem Page.Holds.load (h : p.Holds s) : (Page.load p.link).Holds s :=
  ⟨h.link, .inr h.link, h.consistent, h.plain, h.ids⟩

/-- An update that keeps the state consistent exactly if it is `safe`. -/
theorem Page.Holds.setState (h : p.Holds s) {updater : BuilderState → BuilderState} {safe : Prop}
    (hids : ∀ n ∈ (updater s).nodes, n.id ≠ "") (hsafe : safe → (updater s).Plain → (updater s).Consistent)
    (hbroken : ¬ safe → (updater s).Plain ∧ ¬ (updater s).Consistent) (hs : p.state = some s) :
    (safe → ∃ t, (p.setState updater).Holds t) ∧ ((p.setState updater).Consistent → safe) := by
  have hset : p.setState updater = match encodeState (updater s) with
      | some encoded => { p with state := some (updater s), link := some encoded }
      | none => { p with state := none } := by rw [Page.setState, hs]
  cases hencode : encodeState (updater s) with
  | none =>
    rw [hencode] at hset
    have hnot : ¬ (updater s).Plain := fun hplain => by
      have hsome := encodeState_isSome.2 hplain
      rw [hencode] at hsome
      cases hsome
    rw [hset]
    exact ⟨fun _ => ⟨s, h.link, .inl rfl, h.consistent, h.plain, h.ids⟩,
      fun _ => by_contra fun hno => hnot (hbroken hno).1⟩
  | some encoded =>
    rw [hencode] at hset
    have hplain : (updater s).Plain := encodeState_isSome.1 (by rw [hencode]; rfl)
    rw [hset]
    exact ⟨fun hyes => ⟨updater s, initState_of_encodeState hencode, .inr rfl, hsafe hyes hplain, hplain, hids⟩,
      fun hc => by_contra fun hno => (hbroken hno).2 (hc _ rfl)⟩

theorem newNode_id_ne (count : ℕ) (type : String) : (newNode lower count type).id ≠ "" := by
  show "n" ++ toString count ≠ ""
  simp

theorem latin1_newNode_id (count : ℕ) (type : String) : ∀ c ∈ (newNode lower count type).id.toList, Latin1 c := by
  have htext : (newNode lower count type).id.toList = 'n' :: Nat.toDigits 10 count := by
    show ("n" ++ toString count).toList = _
    rw [String.toList_append]
    simp [Nat.toString_eq_repr, Nat.toList_repr]
  rw [htext]
  refine List.forall_mem_cons.2 ⟨by decide, fun c hc => ?_⟩
  have hascii : c.toNat < 128 := JsonText.ascii_of_isDigit (JsonText.isDigit_of_mem_toDigits hc)
  show c.toNat ≤ 0xff
  omega

/-- One step from a consistent page. -/
theorem Page.Holds.step (h : p.Holds s) (lower : String → String) (op : Op) :
    (p.Safe lower op → ∃ t, (p.step lower op).Holds t) ∧ ((p.step lower op).Consistent → p.Safe lower op) := by
  rcases h.shown with hs | hs
  · -- the page is gone
    have hsafe : p.Safe lower op := fun t ht => by
      rw [hs] at ht
      cases ht
    refine ⟨fun _ => ?_, fun _ => hsafe⟩
    cases op with
    | reload => exact ⟨s, h.load⟩
    | addRelationship => exact ⟨s, by rw [Page.step, hs]; exact h⟩
    | addNode type =>
      refine ⟨s, ?_⟩
      rw [Page.step, Page.setState]
      simp only [hs]
      exact ⟨h.link, .inl rfl, h.consistent, h.plain, h.ids⟩
    | removeNode | updateNodeAlias | removeRelationship => exact ⟨s, by rw [Page.step, Page.setState, hs]; exact h⟩
  · have hsafe : p.Safe lower op ↔ op.Safe lower p.nodeIdRef s :=
      ⟨fun hall => hall s hs, fun hop t ht => by rwa [← Option.some.inj (hs.symm.trans ht)]⟩
    rw [hsafe]
    cases op with
    | addNode type =>
      have hcount : { p with nodeIdRef := p.nodeIdRef + 1 }.Holds s := ⟨h.link, h.shown, h.consistent, h.plain, h.ids⟩
      refine hcount.setState ?_ ?_ ?_ hs
      · simp only [BuilderState.addNode, List.forall_mem_append, List.forall_mem_singleton]
        exact ⟨h.ids, newNode_id_ne _ _⟩
      · intro hop hplain
        refine (BuilderState.consistent_addNode h.consistent).2 (hop fun x hx => hplain x ?_)
        simp only [BuilderState.strings, BuilderState.addNode, List.flatMap_append, List.flatMap_singleton]
        exact List.mem_append_left _ (List.mem_append_right _ (List.mem_cons_of_mem _ hx))
      · intro hno
        obtain ⟨hlatin, hno⟩ := Classical.not_imp.1 hno
        exact ⟨BuilderState.plain_addNode h.plain (List.forall_mem_cons.2 ⟨latin1_newNode_id _ _, hlatin⟩) rfl,
          fun hc => hno ((BuilderState.consistent_addNode h.consistent).1 hc)⟩
    | removeNode id =>
      have hiff := BuilderState.consistent_removeNode id h.consistent h.ids
      exact h.setState (fun n hn => h.ids n (List.mem_filter.1 hn).1) (fun hop _ => hiff.2 hop)
        (fun hno => ⟨BuilderState.plain_removeNode h.plain, fun hc => hno (hiff.1 hc)⟩) hs
    | updateNodeAlias id name =>
      have hiff := BuilderState.consistent_updateNodeAlias id name h.consistent
      refine h.setState ?_ ?_ ?_ hs
      · intro n hn
        obtain ⟨m, hm, rfl⟩ := List.mem_map.1 hn
        split_ifs
        · exact h.ids m hm
        · exact h.ids m hm
      · intro hop hplain
        refine hiff.2 fun n hn hid => hop (hplain name ?_) n hn hid
        have hrenamed : ({ n with «alias» := name } : NodeClause) ∈ (s.updateNodeAlias id name).nodes :=
          List.mem_map.2 ⟨n, hn, if_pos hid⟩
        exact List.mem_append_left _ (List.mem_flatMap.2 ⟨_, hrenamed,
          List.mem_cons_of_mem _ (List.mem_cons_of_mem _ List.mem_cons_self)⟩)
      · intro hno
        obtain ⟨hlatin, hno⟩ := Classical.not_imp.1 hno
        exact ⟨BuilderState.plain_updateNodeAlias h.plain hlatin, fun hc => hno (hiff.1 hc)⟩
    | addRelationship =>
      rw [Page.step]
      split_ifs with hfew
      · exact ⟨fun _ => ⟨s, h⟩, fun _ => trivial⟩
      · have hcount : { p with relIdRef := p.relIdRef + 1 }.Holds s :=
          ⟨h.link, h.shown, h.consistent, h.plain, h.ids⟩
        refine hcount.setState ?_ (fun _ _ => BuilderState.consistent_addRelationship h.consistent)
          (fun hno => absurd trivial hno) hs
        intro n hn
        rw [BuilderState.addRelationship] at hn
        split at hn <;> exact h.ids n hn
    | removeRelationship id =>
      exact h.setState h.ids (fun _ _ => BuilderState.consistent_removeRelationship h.consistent)
        (fun hno => absurd trivial hno) hs
    | reload => exact ⟨fun _ => ⟨s, h.load⟩, fun _ => trivial⟩

/-- From the empty page, the states of a run are consistent exactly if each of its edits is safe. -/
theorem consistent_iff (lower : String → String) (ops : List Op) :
    Runs.Always (fun p op => some (p.step lower op)) Page.Consistent (Page.load none) ops ↔
      Runs.Along (fun p op => some (p.step lower op)) (Page.Safe lower) (Page.load none) ops := by
  refine Runs.always_iff_along_of_good ?_ sound_load_none holds_load_none.page
  rintro p op p' ⟨s, h⟩ - hstep
  obtain rfl := Option.some.inj hstep
  obtain ⟨hkeep, hsafe⟩ := h.step lower op
  refine ⟨fun hop => ?_, hsafe⟩
  obtain ⟨t, ht⟩ := hkeep hop
  exact ⟨⟨t, ht⟩, ht.page⟩

theorem not_always {ops : List Op} (hs : (ops.foldl (Page.step lower) (Page.load none)).state = some s)
    (hnot : ¬ s.Consistent) :
    ¬ Runs.Always (fun p op => some (p.step lower op)) Page.Consistent (Page.load none) ops :=
  fun h => hnot (h ops _ (List.prefix_refl ops) (Runs.run_total _ _ _) s hs)

/-- A node with a relationship gets another alias. -/
def renames : List Op := [.addNode "File", .addNode "Directory", .addRelationship, .updateNodeAlias "n0" "doc"]

/-- A node is added to a state that was loaded. -/
def reloads : List Op := [.addNode "File", .reload, .addNode "File"]

theorem not_consistent :
    (¬ Runs.Always (fun p op => some (p.step String.toLower op)) Page.Consistent (Page.load none) renames) ∧
      ¬ Runs.Always (fun p op => some (p.step String.toLower op)) Page.Consistent (Page.load none) reloads := by
  constructor
  · have hstate : (renames.foldl (Page.step String.toLower) (Page.load none)).state =
        some ⟨[⟨"n0", "File", "doc", []⟩, ⟨"n1", "Directory", "d2", []⟩], [⟨"r0", "CONTAINS", "f1", "d2", true⟩], true,
          .int 50⟩ := by decide +kernel
    refine not_always hstate fun hc => ?_
    have hend := (hc.ends _ List.mem_cons_self).1
    exact absurd hend (by decide)
  · have hstate : (reloads.foldl (Page.step String.toLower) (Page.load none)).state =
        some ⟨[⟨"n0", "File", "f1", []⟩, ⟨"n0", "File", "f1", []⟩], [], true, .int 50⟩ := by decide +kernel
    exact not_always hstate fun hc => absurd hc.ids (by decide)

end Dgraphai.QueryBuilder
