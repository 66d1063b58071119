import Fixpp.Model.Fields

/-!
# Length and Data pairs

A Data value may hold an SOH, so the Length field in front of it counts its bytes. Which tags
pair is known from the standard table and from a document, where the QuickFIX loader finds them
by adjacency and type and the Orchestra loader by `lengthId`. A FIXT route table adds the header
pairs of the session's dictionary to those of another one.

Of a dictionary one row is kept for every field of every message, with the Data tag it counts,
and the tags of the header. Which fields a message has after expansion is left open.
-/

namespace Fixpp.Model

/-! ## The standard pairs -/

/-- A Length tag and the Data tag it counts. -/
def standardLengthDataPairs : List (ℕ × ℕ) :=
  [(90, 91), (93, 89), (95, 96), (212, 213), (348, 349), (350, 351), (352, 353), (354, 355),
   (356, 357), (358, 359), (360, 361), (362, 363), (364, 365), (445, 446), (618, 619),
   (621, 622), (1184, 1185), (1277, 1278), (1280, 1281), (1282, 1283), (1397, 1398),
   (1401, 1402), (1403, 1404), (1468, 1469), (1525, 1527), (1578, 1579), (1620, 1621),
   (1664, 1665), (1678, 1697), (1733, 1734), (1871, 1872), (1874, 1875), (2072, 2073),
   (2074, 2075), (2111, 2112), (2179, 2180), (2287, 2288), (2351, 2352), (2372, 2371),
   (2481, 2482), (2494, 2493), (2522, 2521), (2637, 2638), (2651, 2652), (2665, 2666),
   (2715, 2716), (2718, 2719), (2721, 2722), (2797, 2798), (2802, 2801), (2809, 2808),
   (2815, 2814), (2971, 2972), (40004, 40005), (40008, 40009), (40978, 40979), (40980, 40981),
   (40982, 40983), (40984, 40985), (40986, 40987), (40988, 40989), (41083, 41084),
   (41101, 41102), (41107, 41108), (41256, 41257), (41320, 41321), (41324, 41325),
   (41458, 41459), (41476, 41477), (41482, 41483), (41653, 41654), (41710, 41711),
   (41806, 41807), (41811, 41812), (41873, 41874), (41969, 41970), (42025, 42026),
   (42171, 42172), (42451, 42452), (42652, 42653), (42947, 42948), (43109, 42684),
   (43110, 42486), (43111, 42982)]

/-- `standard_data_tag_for_length`: 0 for a tag that is no standard Length. -/
def standardDataTagForLength (lengthTag : ℕ) : ℕ :=
  ((standardLengthDataPairs.find? (·.1 = lengthTag)).map (·.2)).getD 0

/-- `standard_length_tag_for_data`: 0 for a tag that is no standard Data. -/
def standardLengthTagForData (dataTag : ℕ) : ℕ :=
  ((standardLengthDataPairs.find? (·.2 = dataTag)).map (·.1)).getD 0

def isStandardPairTag (tag : ℕ) : Bool :=
  standardDataTagForLength tag ≠ 0 || standardLengthTagForData tag ≠ 0

/-! ## The pairs of a table view -/

/-- The pairs a `table_view` holds: `length_pair_data_tag_`, its inverse
`data_pair_length_tag_` (0 for no entry) and `has_nonstandard_pair_`. -/
structure LengthPairTable where
  lengthPairDataTag : ℕ → ℕ := fun _ => 0
  dataPairLengthTag : ℕ → ℕ := fun _ => 0
  hasNonstandardPair : Bool := false

/-- A map with the entry of one key changed; 0 erases it. -/
def setEntry (m : ℕ → ℕ) (key value : ℕ) : ℕ → ℕ := fun k => if k = key then value else m k

/-- Re-pairing either tag drops its old partner. A failed allocation is left to `register`. -/
def LengthPairTable.setLengthPairDataTag (t : LengthPairTable) (lengthTag dataTag : ℕ) :
    LengthPairTable :=
  if lengthTag = 0 ∨ dataTag = 0 then t
  else
    let displacedData := t.lengthPairDataTag lengthTag
    let displacedLength := t.dataPairLengthTag dataTag
    let forward := setEntry t.lengthPairDataTag lengthTag dataTag
    let inverse := setEntry t.dataPairLengthTag dataTag lengthTag
    { lengthPairDataTag :=
        if displacedLength ≠ 0 ∧ displacedLength ≠ lengthTag then
          setEntry forward displacedLength 0
        else forward
      dataPairLengthTag :=
        if displacedData ≠ 0 ∧ displacedData ≠ dataTag then setEntry inverse displacedData 0
        else inverse
      hasNonstandardPair :=
        (!isStandardPairTag lengthTag && !isStandardPairTag dataTag) || t.hasNonstandardPair }

/-- Which insertion of a registration finds no memory. Only that of a new key asks for it. -/
inductive PairFate
  | lands
  | forwardThrows
  | inverseThrows
  deriving DecidableEq, Repr

/-- `set_length_pair_data_tag` with its rollback, and whether it returns. -/
def LengthPairTable.register (t : LengthPairTable) (lengthTag dataTag : ℕ) (fate : PairFate) :
    LengthPairTable × Bool :=
  if lengthTag = 0 ∨ dataTag = 0 then (t, true)
  else
    let displacedData := t.lengthPairDataTag lengthTag
    if displacedData = 0 ∧ fate = .forwardThrows then (t, false)
    else
      let forward := setEntry t.lengthPairDataTag lengthTag dataTag
      if t.dataPairLengthTag dataTag = 0 ∧ fate = .inverseThrows then
        -- The erase or the assignment in the handler.
        ({ t with lengthPairDataTag := setEntry forward lengthTag displacedData }, false)
      else (t.setLengthPairDataTag lengthTag dataTag, true)

def LengthPairTable.setAll (t : LengthPairTable) (pairs : List (ℕ × ℕ)) : LengthPairTable :=
  pairs.foldl (fun t p => t.setLengthPairDataTag p.1 p.2) t

/-- `dict_hooks::data_tag_for_length`, with the pair callback if one is installed:
the standard pairs govern any tag they name. -/
def dataTagForLength (lengthPair : Option (ℕ → ℕ)) : DictHooks := fun lengthTag =>
  if isStandardPairTag lengthTag then standardDataTagForLength lengthTag
  else match lengthPair with
    | none => 0
    | some lookup =>
      let data := lookup lengthTag
      if data ≠ 0 ∧ isStandardPairTag data = false then data else 0

def DictHooks.none : DictHooks := dataTagForLength Option.none

/-- The callback is installed only for a table that holds a pair outside the standard ones. -/
def DictHooks.forTableView (t : LengthPairTable) : DictHooks :=
  dataTagForLength (if t.hasNonstandardPair then some t.lengthPairDataTag else Option.none)

/-- `dict_hooks::length_tag_for_data`, with the pair callback from the Data side if one
is installed. -/
def lengthTagForData (dataPair : Option (ℕ → ℕ)) (dataTag : ℕ) : ℕ :=
  if isStandardPairTag dataTag then standardLengthTagForData dataTag
  else match dataPair with
    | none => 0
    | some lookup =>
      let length := lookup dataTag
      if length ≠ 0 ∧ isStandardPairTag length = false then length else 0

/-- `dict_hooks`, as far as pairs go: the pair callback, if one is installed, from the
Length side and from the Data side. -/
structure PairHooks where
  lengthPair : Option ((ℕ → ℕ) × (ℕ → ℕ)) := Option.none

def PairHooks.dataTagForLength (h : PairHooks) : DictHooks :=
  Model.dataTagForLength (h.lengthPair.map (·.1))

def PairHooks.lengthTagForData (h : PairHooks) : ℕ → ℕ :=
  Model.lengthTagForData (h.lengthPair.map (·.2))

/-- `dict_hooks::none`, both ways. -/
def PairHooks.none : PairHooks := {}

/-- `dict_hooks::for_table_view`, both ways. -/
def PairHooks.forTableView (t : LengthPairTable) : PairHooks where
  lengthPair :=
    if t.hasNonstandardPair then some (t.lengthPairDataTag, t.dataPairLengthTag) else Option.none

/-! ## What the loaders find -/

inductive FieldDataType
  | length
  | data
  | xmlData
  | other
  deriving DecidableEq, Repr

/-- A type a Length may count. -/
def FieldDataType.isData (t : FieldDataType) : Bool := t = .data || t = .xmlData

/-- A field of the `<fields>` block. -/
structure GlobalFieldInfo where
  name : String
  tag : ℕ
  type : FieldDataType
  deriving DecidableEq, Repr

/-- A node of the document: an element with its label, its `name` attribute and
its children, or a comment or text. -/
inductive XmlNode
  | element (label name : String) (children : List XmlNode)
  | misc

/-- A QuickFIX document the loader has read the `<fields>` block of; no field
number is declared twice. -/
structure XmlDocument where
  fields : List GlobalFieldInfo
  root : List XmlNode
  distinct : (fields.map (·.tag)).Nodup

variable (doc : XmlDocument)

def XmlDocument.byName (name : String) : Option GlobalFieldInfo :=
  doc.fields.find? (·.name = name)

def XmlDocument.byTag (tag : ℕ) : Option String :=
  (doc.fields.find? (·.tag = tag)).map (·.name)

/-- What a walk for adjacent fields carries: the field before and the pairs found. -/
structure PairWalk where
  prevTag : ℕ := 0
  prevIsLength : Bool := false
  forward : List (ℕ × ℕ) := []

/-- The first Data of a Length field stays. The set of the names that carry a pair is read off the
tags of the pairs: a name has one tag. -/
def XmlDocument.markPair (forward : List (ℕ × ℕ)) (lengthTag dataTag : ℕ) : List (ℕ × ℕ) :=
  if lengthTag = 0 ∨ dataTag = 0 then forward
  else match (doc.byTag lengthTag).bind doc.byName with
    | none => forward
    | some info =>
      if forward.any (·.1 = info.tag) then forward else forward ++ [(info.tag, dataTag)]

def XmlDocument.visit (w : PairWalk) (name : String) : PairWalk :=
  match doc.byName name with
  | none => { w with prevIsLength := false }
  | some info =>
    { prevTag := info.tag
      prevIsLength := info.type = .length
      forward :=
        if w.prevIsLength && info.type.isData then doc.markPair w.forward w.prevTag info.tag
        else w.forward }

/-- One child of a container; in strict mode an element that is no field breaks
adjacency. -/
def XmlDocument.walkChild (strict : Bool) (w : PairWalk) : XmlNode → PairWalk
  | .misc => w
  | .element label name _ =>
    if label = "field" then doc.visit w name
    else if strict then { w with prevIsLength := false }
    else w

/-- The children of a container, with the pairs found so far. -/
def XmlDocument.walk (strict : Bool) (forward : List (ℕ × ℕ)) (container : List XmlNode) :
    List (ℕ × ℕ) :=
  (container.foldl (doc.walkChild strict) { forward := forward }).forward

def childrenOf (label : String) : List XmlNode → List XmlNode
  | [] => []
  | .element l _ children :: rest => if l = label then children else childrenOf label rest
  | .misc :: rest => childrenOf label rest

def containersOf (label : String) (nodes : List XmlNode) : List (List XmlNode) :=
  nodes.filterMap fun
    | .element l _ children => if l = label then some children else none
    | .misc => none

mutual

/-- The children of every `<group>` at or below a node, in document order. -/
def XmlNode.groups : XmlNode → List (List XmlNode)
  | .misc => []
  | .element label _ children =>
    (if label = "group" then [children] else []) ++ groupsBelow children

def groupsBelow : List XmlNode → List (List XmlNode)
  | [] => []
  | node :: rest => node.groups ++ groupsBelow rest

end

/-- The fields block first, then the header, the trailer and the messages, then the components and
the groups in strict mode. -/
def XmlDocument.detectLengthPairRelation : List (ℕ × ℕ) :=
  let primary := ((doc.fields.map (·.name)).foldl doc.visit {}).forward
  let loose := [childrenOf "header" doc.root, childrenOf "trailer" doc.root] ++
    containersOf "message" (childrenOf "messages" doc.root)
  let strict := containersOf "component" (childrenOf "components" doc.root) ++ groupsBelow doc.root
  strict.foldl (doc.walk true) (loose.foldl (doc.walk false) primary)

structure OrchestraFieldInfo where
  tag : ℕ
  type : FieldDataType
  lengthId : Option ℕ
  deriving DecidableEq, Repr

/-- The fields of an Orchestra document; no id is declared twice. -/
structure OrchestraDocument where
  fields : List OrchestraFieldInfo
  distinct : (fields.map (·.tag)).Nodup

def orchestraWhere (dataTag lengthTag : ℕ) : String :=
  "dict::orchestra_parse_error: <fixr:field id=\"" ++ toString dataTag ++ "\" lengthId=\"" ++
    toString lengthTag ++ "\">"

/-- One field of `resolve_length_pair_relation` in the refusing mode of the
loader. -/
def OrchestraDocument.resolveField (doc : OrchestraDocument) (forward : List (ℕ × ℕ))
    (info : OrchestraFieldInfo) : Except String (List (ℕ × ℕ)) :=
  match info.lengthId with
  | none => .ok forward
  | some lengthTag =>
    let site := orchestraWhere info.tag lengthTag
    if lengthTag = 0 ∨ info.tag = 0 then
      .error (site ++ " names field number 0, which cannot be half of a Length+Data pair")
    else if info.type.isData = false then .error (site ++ " is not a data or XMLData field")
    else if (doc.fields.find? (·.tag = lengthTag)).map (·.type) ≠ some .length then
      .error (site ++ " does not name a declared Length field")
    else if forward.any (·.1 = lengthTag) then
      .error (site ++ " names a Length field already paired with another field")
    else .ok (forward ++ [(lengthTag, info.tag)])

/-- `resolve_length_pair_relation`. The source visits the fields in the order of a
hash map, which only decides which of two refusals is reported. -/
def OrchestraDocument.resolveLengthPairRelation (doc : OrchestraDocument) :
    Except String (List (ℕ × ℕ)) :=
  doc.fields.foldlM doc.resolveField []

/-! ## Dictionaries and their table views -/

/-- `FieldRef`, as far as pairs need it. -/
structure FieldRef where
  tag : ℕ
  lengthPairDataTag : ℕ
  deriving DecidableEq, Repr

/-- The rows of its messages and the tags of its header. Every row that counts a Data tag is a
Length field, and counts a field of a data type. -/
structure Dictionary where
  fields : List FieldRef
  headerTags : List ℕ
  typed : ∃ typeOf : ℕ → FieldDataType, ∀ f ∈ fields, f.lengthPairDataTag ≠ 0 →
    typeOf f.tag = .length ∧ (typeOf f.lengthPairDataTag).isData = true

/-- The pairs `as_table_view` registers, those of the rows. -/
def Dictionary.pairs (d : Dictionary) : List (ℕ × ℕ) :=
  d.fields.map fun f => (f.tag, f.lengthPairDataTag)

/-- `insert` at `lower_bound`: a Length tag that is there already stays. -/
def insertPair (out : List (ℕ × ℕ)) (p : ℕ × ℕ) : List (ℕ × ℕ) :=
  if out.any (·.1 = p.1) then out
  else out.takeWhile (·.1 < p.1) ++ p :: out.dropWhile (·.1 < p.1)

/-- The pairs outside the standard ones with a tag of the header, in the order of their Length tags.
-/
def Dictionary.headerLengthPairs (d : Dictionary) : List (ℕ × ℕ) :=
  d.pairs.foldl (fun out p =>
    if p.2 = 0 ∨ isStandardPairTag p.1 ∨ isStandardPairTag p.2 then out
    else if p.1 ∉ d.headerTags ∧ p.2 ∉ d.headerTags then out
    else insertPair out p) []

/-- `Dictionary::as_table_view`, its pairs. -/
def Dictionary.asTableView (d : Dictionary) : LengthPairTable := LengthPairTable.setAll {} d.pairs

/-- `Dictionary::as_table_view(fixt_framing, extra)`, its pairs. -/
def Dictionary.asRouteTable (d : Dictionary) (extra : List (ℕ × ℕ)) : LengthPairTable :=
  d.asTableView.setAll extra

/-- Where the table view a reader holds comes from: there is none, a dictionary a
loader produced, or a table of `fixt_route_set::make`, plain or with the header
pairs of a session dictionary. -/
inductive TableSource
  | none
  | dictionary (d : Dictionary)
  | fixtRoute (d : Dictionary)
  | fixtRoutePairs (d s : Dictionary)

def TableSource.hooks : TableSource → DictHooks
  | .none => DictHooks.none
  | .dictionary d => DictHooks.forTableView d.asTableView
  | .fixtRoute d => DictHooks.forTableView (d.asRouteTable [])
  | .fixtRoutePairs d s => DictHooks.forTableView (d.asRouteTable s.headerLengthPairs)

/-- No tag is the Data tag of one pair and the Length tag of another. -/
def DictHooks.Unchained (hooks : DictHooks) : Prop := ∀ t, hooks t ≠ 0 → hooks (hooks t) = 0

/-! ## The path of groups around a group

`group_parent_path` follows the links from a group tag to the group around it. The links come
out of a document, so they may lead in a circle; a walk that has taken more tags than there are
links has taken one of them twice. -/

/-- `immediate_parent`: at most one link for a tag. -/
abbrev ParentLinks := AList fun _ : UInt16 => UInt16

variable (immediateParent : ParentLinks)

/-- The loop of `group_parent_path`. -/
def walkParents (path : List UInt16) (cur : UInt16) : Option (List UInt16) :=
  if cur = 0 then some path.reverse
  else if path.length > immediateParent.keys.length then none
  else walkParents (path ++ [cur]) ((immediateParent.lookup cur).getD 0)
termination_by immediateParent.keys.length + 1 - path.length
decreasing_by
  rw [List.length_append, List.length_singleton]
  omega

def groupParentPath (start : UInt16) : Option (List UInt16) :=
  walkParents immediateParent [] start

end Fixpp.Model
