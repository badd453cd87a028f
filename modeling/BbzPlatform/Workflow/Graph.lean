import BbzPlatform.Json
import BbzPlatform.Lib.Search
import Mathlib.Data.List.Sort
import Mathlib.Data.String.Basic
import Mathlib.Data.Finset.Card

/-!
# Workflow graphs

A workflow template is a JSON `definition`.  `readDefinition` accepts exactly the
documents the schema `workflow.graph.v1` accepts and reads them into typed rows;
`validateGraph` adds the rules a schema cannot state, and `deriveIndex` sorts the
rows by key.

The schema library is not part of the repository.  `Externals` holds what it is
relied on for: it reports an error exactly when the document does not fit the
schema.  The wording of its messages is its own, and so is the text Python gives
a float.
-/

namespace BbzPlatform.Workflow

open List

/-- The node types of the schema; the engine also meets graphs built by hand. -/
inductive NodeType where
  | event
  | function
  | connector
  | other (name : String)
  deriving DecidableEq, Repr

inductive FunctionKind where
  | manual | confirmation | documentation | integrationAction | notification | timer | eventUpdate
  deriving DecidableEq, Repr

inductive ConnectorType where
  | and | or | xor
  deriving DecidableEq, Repr

/-- Which way a connector works. -/
inductive Direction where
  | split | join
  deriving DecidableEq, Repr

namespace FunctionKind

def name : FunctionKind → String
  | .manual => "manual"
  | .confirmation => "confirmation"
  | .documentation => "documentation"
  | .integrationAction => "integration_action"
  | .notification => "notification"
  | .timer => "timer"
  | .eventUpdate => "event_update"

/-- The kinds, in the schema's order. -/
def all : List FunctionKind :=
  [.manual, .confirmation, .documentation, .integrationAction, .notification, .timer, .eventUpdate]

end FunctionKind

structure GraphNode where
  key : String
  type : NodeType
  label : Option String := none
  functionKind : Option FunctionKind := none
  connectorType : Option ConnectorType := none
  connectorDirection : Option Direction := none
  props : List (String × Json) := []

structure GraphEdge where
  key : String
  fromKey : String
  toKey : String
  branch : Option String := none
  condition : Option (List (String × Json)) := none

namespace GraphNode

def event (key : String) : GraphNode := { key := key, type := .event }

def function (key : String) (kind : FunctionKind) : GraphNode :=
  { key := key, type := .function, functionKind := some kind }

def connector (key : String) (logic : ConnectorType) (direction : Direction) : GraphNode :=
  { key := key, type := .connector, connectorType := some logic,
    connectorDirection := some direction }

end GraphNode

/-- An edge without branch name or condition. -/
def GraphEdge.plain (key fromKey toKey : String) : GraphEdge :=
  { key := key, fromKey := fromKey, toKey := toKey }

/-- The rows of a definition in the order it lists them. -/
structure Definition where
  start : String
  nodes : List GraphNode
  edges : List GraphEdge

/-- The flattened graph the engine runs on. -/
structure DerivedGraph where
  start : String
  nodes : List GraphNode
  edges : List GraphEdge

/-! ## The schema as a reader -/

def keyChar (c : Char) : Bool :=
  c.isAlphanum || c = '_' || c = '.' || c = ':' || c = '-'

/-- `^[A-Za-z0-9_.:-]{1,64}$`.  The dollar sign also matches before a final
newline. -/
def keyPattern (s : String) : Bool :=
  let chars := s.toList
  let body := if chars.getLast? = some (Char.ofNat 10) then chars.dropLast else chars
  1 ≤ body.length && body.length ≤ 64 && body.all keyChar

def readKey : Json → Option String
  | .str s => if keyPattern s then some s else none
  | _ => none

def readText (maxLength : ℕ) : Json → Option String
  | .str s => if s.length ≤ maxLength then some s else none
  | _ => none

def readObject : Json → Option (List (String × Json))
  | .obj fields => some fields
  | _ => none

def readType : Json → Option NodeType
  | .str "event" => some .event
  | .str "function" => some .function
  | .str "connector" => some .connector
  | _ => none

/-- A task kind of the schema. -/
def readKind : Json → Option FunctionKind
  | .str s => FunctionKind.all.find? (·.name = s)
  | _ => none

def readConnector : Json → Option ConnectorType
  | .str "and" => some .and
  | .str "or" => some .or
  | .str "xor" => some .xor
  | _ => none

def readDirection : Json → Option Direction
  | .str "split" => some .split
  | .str "join" => some .join
  | _ => none

def readRequired {α : Type} (fields : List (String × Json)) (key : String)
    (read : Json → Option α) : Option α :=
  (Json.get fields key).bind read

/-- An optional property: absent, or as its schema says. -/
def readOptional {α : Type} (fields : List (String × Json)) (key : String)
    (read : Json → Option α) : Option (Option α) :=
  match Json.get fields key with
  | none => some none
  | some v => (read v).map some

/-- `additionalProperties: false`. -/
def onlyKeys (fields : List (String × Json)) (allowed : List String) : Bool :=
  fields.all fun f => allowed.contains f.1

/-- The conditional requirements of a node: a function has a kind, a connector
has a logic and a direction, an event has neither kind nor logic. -/
def nodeShape (type : NodeType) (kind : Option FunctionKind) (connector : Option ConnectorType)
    (direction : Option Direction) : Bool :=
  match type with
  | .function => kind.isSome
  | .connector => connector.isSome && direction.isSome
  | .event => kind.isNone && connector.isNone
  | .other _ => false

def readNode : Json → Option GraphNode
  | .obj fields => do
      guard (onlyKeys fields ["key", "type", "label", "kind", "connector", "direction", "props"])
      let key ← readRequired fields "key" readKey
      let type ← readRequired fields "type" readType
      let label ← readOptional fields "label" (readText 300)
      let kind ← readOptional fields "kind" readKind
      let connector ← readOptional fields "connector" readConnector
      let direction ← readOptional fields "direction" readDirection
      let props ← readOptional fields "props" readObject
      guard (nodeShape type kind connector direction)
      some
        { key := key, type := type, label := label, functionKind := kind,
          connectorType := connector, connectorDirection := direction, props := props.getD [] }
  | _ => none

def readEdge : Json → Option GraphEdge
  | .obj fields => do
      guard (onlyKeys fields ["key", "from", "to", "branch", "condition"])
      let key ← readRequired fields "key" readKey
      let fromKey ← readRequired fields "from" readKey
      let toKey ← readRequired fields "to" readKey
      let branch ← readOptional fields "branch" (readText 64)
      let condition ← readOptional fields "condition" readObject
      some
        { key := key, fromKey := fromKey, toKey := toKey, branch := branch,
          condition := condition }
  | _ => none

/-- The items of an array, each as its schema says. -/
def readArray {α : Type} (read : Json → Option α) : Json → Option (List α)
  | .arr items => items.mapM read
  | _ => none

/-- The schema `workflow.graph.v1`: `some` exactly on the documents it accepts. -/
def readDefinition : Json → Option Definition
  | .obj fields => do
      guard (onlyKeys fields ["start", "nodes", "edges"])
      let start ← readRequired fields "start" readKey
      let nodes ← readRequired fields "nodes" (readArray readNode)
      guard !nodes.isEmpty
      let edges ← readRequired fields "edges" (readArray readEdge)
      some ⟨start, nodes, edges⟩
  | _ => none

/-! ## Writing a definition -/

/-- An optional property, left out when it is absent. -/
def optional (key : String) : Option Json → List (String × Json)
  | none => []
  | some v => [(key, v)]

def NodeType.name : NodeType → String
  | .event => "event"
  | .function => "function"
  | .connector => "connector"
  | .other name => name

/-- The name of a connector's logic in a definition. -/
def ConnectorType.name : ConnectorType → String
  | .and => "and"
  | .or => "or"
  | .xor => "xor"

def Direction.name : Direction → String
  | .split => "split"
  | .join => "join"

def GraphNode.toJson (n : GraphNode) : Json :=
  .obj ([("key", .str n.key), ("type", .str n.type.name)]
    ++ optional "label" (n.label.map .str)
    ++ optional "kind" (n.functionKind.map fun k => .str k.name)
    ++ optional "connector" (n.connectorType.map fun c => .str c.name)
    ++ optional "direction" (n.connectorDirection.map fun d => .str d.name)
    ++ [("props", .obj n.props)])

def GraphEdge.toJson (e : GraphEdge) : Json :=
  .obj ([("key", .str e.key), ("from", .str e.fromKey), ("to", .str e.toKey)]
    ++ optional "branch" (e.branch.map .str) ++ optional "condition" (e.condition.map .obj))

def Definition.toJson (d : Definition) : Json :=
  .obj [("start", .str d.start), ("nodes", .arr (d.nodes.map GraphNode.toJson)),
    ("edges", .arr (d.edges.map GraphEdge.toJson))]

/-- The rows a schema-conforming document can carry. -/
def GraphNode.writable (n : GraphNode) : Bool :=
  keyPattern n.key && n.label.all (·.length ≤ 300) &&
    nodeShape n.type n.functionKind n.connectorType n.connectorDirection

/-- The edges a schema-conforming document can carry. -/
def GraphEdge.writable (e : GraphEdge) : Bool :=
  keyPattern e.key && keyPattern e.fromKey && keyPattern e.toKey && e.branch.all (·.length ≤ 64)

/-- The definitions a schema-conforming document can carry. -/
def Definition.writable (d : Definition) : Bool :=
  keyPattern d.start && !d.nodes.isEmpty && d.nodes.all (·.writable) && d.edges.all (·.writable)

/-- What the code gets from outside the repository: the messages of the schema
library, none exactly on the documents the schema accepts, the text of a float, and
the integer Python reads from a text. -/
structure Externals where
  iterErrors : Json → List String
  iterErrors_eq_nil : ∀ d, iterErrors d = [] ↔ (readDefinition d).isSome
  floatRepr : ℚ → String
  intOfStr : String → Option ℤ

/-- A schema library with a single message, floats written as fractions, and integers
written in digits. -/
def Externals.plain : Externals where
  iterErrors d := if (readDefinition d).isSome then [] else ["not a workflow graph"]
  iterErrors_eq_nil d := by
    split_ifs with h <;> simp [h]
  floatRepr q := toString q.num ++ "/" ++ toString q.den
  intOfStr := String.toInt?

/-! ## Structural rules and flattening -/

/-- Why a definition is not a graph. -/
inductive GraphError where
  | schema (messages : List String)
  | duplicateNodes (keys : List String)
  | startMissing (start : String)
  | duplicateEdges (keys : List String)
  | endpointMissing (edge side node : String)

/-- The text of the raised `WorkflowGraphError`. -/
def GraphError.message : GraphError → String
  | .schema messages => String.intercalate "; " messages
  | .duplicateNodes keys => "duplicate node keys: " ++ Json.reprStrs keys
  | .startMissing start => "start node " ++ Json.reprStr start ++ " does not exist"
  | .duplicateEdges keys => "duplicate edge keys: " ++ Json.reprStrs keys
  | .endpointMissing edge side node =>
    "edge " ++ Json.reprStr edge ++ " " ++ side ++ " node " ++ Json.reprStr node
      ++ " does not exist"

/-- The keys that occur more than once, sorted. -/
def dupes (keys : List String) : List String :=
  ((keys.filter fun k => 1 < keys.count k).dedup).insertionSort (· ≤ ·)

/-- The first endpoint of an edge that no node carries. -/
def missingEndpoint (keys : List String) (e : GraphEdge) : Option GraphError :=
  if e.fromKey ∉ keys then some (.endpointMissing e.key "from" e.fromKey)
  else if e.toKey ∉ keys then some (.endpointMissing e.key "to" e.toKey)
  else none

/-- The rules behind the schema: unique keys, an existing start, existing
endpoints. -/
def checkStructure (d : Definition) : Except GraphError Unit :=
  let keys := d.nodes.map (·.key)
  if dupes keys ≠ [] then .error (.duplicateNodes (dupes keys))
  else if d.start ∉ keys then .error (.startMissing d.start)
  else if dupes (d.edges.map (·.key)) ≠ [] then
    .error (.duplicateEdges (dupes (d.edges.map (·.key))))
  else
    match d.edges.findSome? (missingEndpoint keys) with
    | some err => .error err
    | none => .ok ()

/-- Check a definition against the schema and the structural rules. -/
def validateGraph (ext : Externals) (definition : Json) : Except GraphError Definition :=
  if ext.iterErrors definition ≠ [] then .error (.schema (ext.iterErrors definition))
  else
    match readDefinition definition with
    | none => .error (.schema [])
    | some d => do
        checkStructure d
        .ok d

def Definition.flatten (d : Definition) : DerivedGraph where
  start := d.start
  nodes := d.nodes.insertionSort fun a b => a.key ≤ b.key
  edges := d.edges.insertionSort fun a b => a.key ≤ b.key

/-- Validate, then flatten to rows sorted by key. -/
def deriveIndex (ext : Externals) (definition : Json) : Except GraphError DerivedGraph := do
  let d ← validateGraph ext definition
  .ok d.flatten

namespace DerivedGraph

variable (g : DerivedGraph)

/-! ## The directed graph -/

/-- Some edge leads from one node key to the other. -/
def Adj (a b : String) : Prop := ∃ e ∈ g.edges, e.fromKey = a ∧ e.toKey = b

/-- A directed path of at least one edge. -/
def Reaches (a b : String) : Prop := Relation.TransGen g.Adj a b

/-- No node lies on a directed cycle. -/
def Acyclic : Prop := ∀ k, ¬ g.Reaches k k

/-- What the structural rules leave: unique keys and existing endpoints. -/
structure WellFormed : Prop where
  nodes_nodup : (g.nodes.map (·.key)).Nodup
  edges_nodup : (g.edges.map (·.key)).Nodup
  start_mem : g.start ∈ g.nodes.map (·.key)
  from_mem : ∀ e ∈ g.edges, e.fromKey ∈ g.nodes.map (·.key)
  to_mem : ∀ e ∈ g.edges, e.toKey ∈ g.nodes.map (·.key)
  shape : ∀ n ∈ g.nodes,
    nodeShape n.type n.functionKind n.connectorType n.connectorDirection = true

end DerivedGraph

/-! ## What an accepted definition guarantees -/

/-- A list without repeated keys has none to report. -/
theorem nodup_of_dupes_eq_nil {keys : List String} (h : dupes keys = []) : keys.Nodup := by
  have hperm := perm_insertionSort (· ≤ ·) (keys.filter fun k => 1 < keys.count k).dedup
  rw [show ((keys.filter fun k => 1 < keys.count k).dedup).insertionSort (· ≤ ·) = [] from h]
    at hperm
  have hnil : (keys.filter fun k => 1 < keys.count k) = [] := by
    have hd := nil_perm.mp hperm
    simpa using hd
  rw [nodup_iff_count_le_one]
  intro k
  by_cases hk : k ∈ keys
  · have := (filter_eq_nil_iff.mp hnil) k hk
    simpa using this
  · rw [count_eq_zero_of_not_mem hk]
    exact Nat.zero_le 1

/-- What every accepted item satisfies holds along the array. -/
theorem forall_of_mapM {α : Type} {read : Json → Option α} {P : α → Prop}
    (hread : ∀ v a, read v = some a → P a) :
    ∀ {items : List Json} {as : List α}, items.mapM read = some as → ∀ a ∈ as, P a := by
  intro items
  induction items with
  | nil =>
    intro as h a ha
    simp only [mapM_nil, Option.pure_def, Option.some.injEq] at h
    subst h
    simp at ha
  | cons v vs ih =>
    intro as h a ha
    simp only [mapM_cons, Option.pure_def, Option.bind_eq_bind,
      Option.bind_eq_some_iff, Option.some.injEq] at h
    obtain ⟨b, hb, bs, hbs, rfl⟩ := h
    rcases mem_cons.mp ha with rfl | ha
    · exact hread v _ hb
    · exact ih hbs a ha

variable {v : Json} {n : GraphNode} {d : Definition} {g : DerivedGraph}

theorem readNode_shape (h : readNode v = some n) :
    nodeShape n.type n.functionKind n.connectorType n.connectorDirection = true := by
  cases v with
  | obj fields =>
    simp only [readNode, Option.bind_eq_bind, Option.bind_eq_some_iff,
      Option.some.injEq] at h
    obtain ⟨_, -, key, -, type, -, label, -, kind, -, connector, -, direction, -, props, -, _,
      hshape, rfl⟩ := h
    by_contra hno
    simp [guard, hno] at hshape
  | _ => simp [readNode] at h

theorem readDefinition_shape (h : readDefinition v = some d) : ∀ n ∈ d.nodes,
      nodeShape n.type n.functionKind n.connectorType n.connectorDirection = true := by
  cases v with
  | obj fields =>
    simp only [readDefinition, Option.bind_eq_bind, Option.bind_eq_some_iff,
      Option.some.injEq] at h
    obtain ⟨_, -, start, -, nodes, hnodes, _, -, edges, -, rfl⟩ := h
    simp only [readRequired, Option.bind_eq_some_iff] at hnodes
    obtain ⟨w, -, hw⟩ := hnodes
    cases w with
    | arr items => exact forall_of_mapM (fun v a h => readNode_shape h) hw
    | _ => simp [readArray] at hw
  | _ => simp [readDefinition] at h

/-- The structural rules, read as facts. -/
theorem checkStructure_ok (h : checkStructure d = .ok ()) :
    (d.nodes.map (·.key)).Nodup ∧ (d.edges.map (·.key)).Nodup ∧
      d.start ∈ d.nodes.map (·.key) ∧
      ∀ e ∈ d.edges, e.fromKey ∈ d.nodes.map (·.key) ∧ e.toKey ∈ d.nodes.map (·.key) := by
  unfold checkStructure at h
  simp only at h
  split_ifs at h with h1 h2 h3
  refine ⟨nodup_of_dupes_eq_nil (not_not.mp h1), nodup_of_dupes_eq_nil (not_not.mp h3),
    h2, ?_⟩
  cases hfind : d.edges.findSome? (missingEndpoint (d.nodes.map (·.key))) with
  | some err => rw [hfind] at h; cases h
  | none =>
    intro e he
    have hnone := findSome?_eq_none_iff.mp hfind e he
    unfold missingEndpoint at hnone
    split_ifs at hnone with hf ht
    exact ⟨hf, ht⟩

/-- **An accepted definition yields a well-formed graph.** -/
theorem deriveIndex_wellFormed {ext : Externals} {definition : Json}
    (h : deriveIndex ext definition = .ok g) : g.WellFormed := by
  unfold deriveIndex validateGraph at h
  split_ifs at h with herr
  · cases h
  cases hread : readDefinition definition with
  | none => rw [hread] at h; cases h
  | some d =>
    rw [hread] at h
    cases hcheck : checkStructure d with
    | error err => simp only [hcheck] at h; cases h
    | ok u =>
      simp only [hcheck] at h
      cases h
      obtain ⟨hn, he, hs, hends⟩ := checkStructure_ok hcheck
      have pn := perm_insertionSort (fun a b : GraphNode => a.key ≤ b.key) d.nodes
      have pe := perm_insertionSort (fun a b : GraphEdge => a.key ≤ b.key) d.edges
      have hkeys : ∀ k, k ∈ d.nodes.map (·.key) ↔
          k ∈ (d.nodes.insertionSort fun a b => a.key ≤ b.key).map (·.key) :=
        fun k => (pn.map _).mem_iff.symm
      refine ⟨(pn.map _).nodup_iff.mpr hn, (pe.map _).nodup_iff.mpr he, (hkeys _).mp hs,
        ?_, ?_, ?_⟩
      · intro e hmem
        exact (hkeys _).mp (hends e (pe.mem_iff.mp hmem)).1
      · intro e hmem
        exact (hkeys _).mp (hends e (pe.mem_iff.mp hmem)).2
      · intro n hmem
        exact readDefinition_shape hread n (pn.mem_iff.mp hmem)

/-! ## Documents read back -/

theorem readKind_name (k : FunctionKind) : readKind (.str k.name) = some k := by
  cases k <;> decide

theorem readConnector_name (c : ConnectorType) : readConnector (.str c.name) = some c := by
  cases c <;> rfl

theorem readDirection_name (d : Direction) : readDirection (.str d.name) = some d := by
  cases d <;> rfl

theorem readNode_toJson (h : n.writable = true) : readNode n.toJson = some n := by
  obtain ⟨key, type, label, kind, connector, direction, props⟩ := n
  simp only [GraphNode.writable, Bool.and_eq_true] at h
  obtain ⟨⟨hkey, hlabel⟩, hshape⟩ := h
  have htype : readType (.str type.name) = some type := by
    cases type with
    | event | function | connector => rfl
    | other name => simp [nodeShape] at hshape
  cases label <;> cases kind <;> cases connector <;> cases direction <;>
    simp_all [readNode, GraphNode.toJson, optional, onlyKeys, readRequired, readOptional, Json.get,
      readKey, readText, readObject, readKind_name, readConnector_name, readDirection_name,
      lookup_cons, lookup_nil, guard]

theorem readEdge_toJson {e : GraphEdge} (h : e.writable = true) : readEdge e.toJson = some e := by
  obtain ⟨key, fromKey, toKey, branch, condition⟩ := e
  simp only [GraphEdge.writable, Bool.and_eq_true] at h
  obtain ⟨⟨⟨hkey, hfrom⟩, hto⟩, hbranch⟩ := h
  cases branch <;> cases condition <;>
    simp_all [readEdge, GraphEdge.toJson, optional, onlyKeys, readRequired, readOptional, Json.get,
      readKey, readText, readObject, lookup_cons, lookup_nil, guard]

theorem mapM_toJson {α : Type} {read : Json → Option α} {write : α → Json} {as : List α}
    (h : ∀ a ∈ as, read (write a) = some a) : (as.map write).mapM read = some as := by
  induction as with
  | nil => rfl
  | cons a as ih =>
    have hrest := ih fun b hb => h b (mem_cons_of_mem _ hb)
    simp [h a mem_cons_self, hrest]

/-- **What is written is read back.** -/
theorem readDefinition_toJson (h : d.writable = true) : readDefinition d.toJson = some d := by
  obtain ⟨start, nodes, edges⟩ := d
  simp only [Definition.writable, Bool.and_eq_true, all_eq_true] at h
  obtain ⟨⟨⟨hstart, hne⟩, hnodes⟩, hedges⟩ := h
  have hn := mapM_toJson fun n hn => readNode_toJson (hnodes n hn)
  have he := mapM_toJson fun e he => readEdge_toJson (hedges e he)
  simp_all [readDefinition, Definition.toJson, onlyKeys, readRequired, Json.get, readKey,
    readArray, lookup_cons, guard]

/-- A written definition that obeys the structural rules is flattened. -/
theorem deriveIndex_toJson (ext : Externals) (hw : d.writable = true)
    (hs : checkStructure d = .ok ()) : deriveIndex ext d.toJson = .ok d.flatten := by
  have hread := readDefinition_toJson hw
  have hok : ext.iterErrors d.toJson = [] := (ext.iterErrors_eq_nil _).mpr (by simp [hread])
  simp [deriveIndex, validateGraph, hok, hread, hs, bind, Except.bind]

namespace DerivedGraph

/-! ## Induction along an acyclic graph -/

/-- How many nodes lie before a node. -/
noncomputable def rank (g : DerivedGraph) (k : String) : ℕ :=
  open Classical in ((g.nodes.map (·.key)).toFinset.filter fun m => g.Reaches m k).card

/-- An edge of an acyclic graph leads to a node with more nodes before it. -/
theorem rank_lt_of_adj (hwf : g.WellFormed) (hac : g.Acyclic) {a b : String} (h : g.Adj a b) :
    g.rank a < g.rank b := by
  classical
  unfold rank
  apply Finset.card_lt_card
  rw [Finset.ssubset_iff_of_subset]
  · refine ⟨a, ?_, ?_⟩
    · simp only [Finset.mem_filter, mem_toFinset]
      refine ⟨?_, .single h⟩
      obtain ⟨e, he, rfl, -⟩ := h
      exact hwf.from_mem e he
    · simp only [Finset.mem_filter, not_and]
      exact fun _ => hac a
  · intro m hm
    simp only [Finset.mem_filter] at hm ⊢
    exact ⟨hm.1, hm.2.tail h⟩

/-- A numbering that grows along every edge rules out cycles. -/
theorem acyclic_of_rank (rank : String → ℕ)
    (h : ∀ e ∈ g.edges, rank e.fromKey < rank e.toKey) : g.Acyclic := by
  have hlt : ∀ {a b : String}, g.Reaches a b → rank a < rank b := by
    intro a b hab
    induction hab with
    | single hadj =>
      obtain ⟨e, he, rfl, rfl⟩ := hadj
      exact h e he
    | tail _ hadj ih =>
      obtain ⟨e, he, rfl, rfl⟩ := hadj
      exact ih.trans (h e he)
  exact fun k hk => Nat.lt_irrefl _ (hlt hk)

end DerivedGraph

end BbzPlatform.Workflow
