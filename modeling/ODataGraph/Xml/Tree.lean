import ODataGraph.Xml.Token

/-! XML documents as trees of elements. -/

namespace ODataGraph.Xml

/-- An attribute; `space` is the namespace of its name, if the name has a qualifier. -/
structure Attribute where
  space : Option String
  name : String
  value : String
  deriving DecidableEq

/-- Every node keeps the text that it is written as; that of an element is the text of its start
tag, its children and its end tag (empty if the start tag is all of it). -/
inductive Node where
  | element (name : String) (attributes : List Attribute) (children : List Node)
      (startTag endTag : String)
  | text (content source : String)
  | remark (source : String)
  deriving Inhabited

namespace Node

def isElement : Node → Bool
  | .element .. => true
  | _ => false

def name : Node → String
  | .element name .. => name
  | _ => ""

def attributes : Node → List Attribute
  | .element _ attributes .. => attributes
  | _ => []

def children : Node → List Node
  | .element _ _ children .. => children
  | _ => []

def childElements (n : Node) : List Node := n.children.filter isElement

def childrenNamed (n : Node) (name : String) : List Node :=
  n.childElements.filter (·.name == name)

/-- The value of an attribute that is in no namespace. -/
def attribute? (n : Node) (name : String) : Option String :=
  (n.attributes.find? fun a => a.space.isNone && a.name == name).map (·.value)

def text? (n : Node) : Option String :=
  match n.children with
  | .text content _ :: _ => some content
  | _ => none

mutual

def source : Node → String
  | .element _ _ children startTag endTag => startTag ++ sources children ++ endTag
  | .text _ source => source
  | .remark source => source

def sources : List Node → String
  | [] => ""
  | n :: ns => n.source ++ sources ns

/-- An element and all elements in it, in the order of their start tags. -/
def elements : Node → List Node
  | n@(.element _ _ children ..) => n :: elementsOf children
  | _ => []

def elementsOf : List Node → List Node
  | [] => []
  | n :: ns => n.elements ++ elementsOf ns

end

end Node

/-- The namespaces in scope, by qualifier; the empty qualifier is that of the default one. -/
abbrev Scope := List (List Char × List Char)

def xmlSpace : List Char := "http://www.w3.org/XML/1998/namespace".toList

def xmlnsSpace : List Char := "http://www.w3.org/2000/xmlns/".toList

def xmlnsName : List Char := "xmlns".toList

def xmlName : List Char := "xml".toList

/-- The declaration that an attribute is, if it is one. The namespaces with a fixed qualifier may
not be declared otherwise. -/
def RawAttribute.declaration? (a : RawAttribute) : Option (List Char × List Char) :=
  if a.name.qualifier = xmlnsName then some (a.name.name, a.value)
  else if a.name.name = xmlnsName then some ([], a.value)
  else none

def declare? (declared : Scope) (a : RawAttribute) (d : List Char × List Char) : Option Scope :=
  if d.2 = xmlnsSpace then none
  else if a.name.qualifier = xmlnsName then
    if (d.1 = xmlName) ≠ (d.2 = xmlSpace) then none
    else if (declared.lookup d.1).isSome then none
    else some (if d.2 = xmlSpace then declared else declared ++ [d])
  else if d.2 = xmlSpace then none
  else some (declared ++ [d])

def declarations? (attributes : List RawAttribute) : Option Scope :=
  let step (declared : Scope) (a : RawAttribute) : Option Scope :=
    match a.declaration? with
    | some d => declare? declared a d
    | none => some declared
  attributes.foldlM step []

/-- The namespace of an attribute's name: none without a qualifier. -/
def Scope.ofAttribute? (scope : Scope) (name : QName) : Option (Option String) :=
  if name.qualifier.isEmpty then some none
  else if name.qualifier = xmlName then some (some (String.ofList xmlSpace))
  else (scope.lookup name.qualifier).map fun space => some (String.ofList space)

/-- The attributes of an element other than declarations; no two have the same name. -/
def attributes? (scope : Scope) (raw : List RawAttribute) : Option (List Attribute) :=
  let step (done : List Attribute) (a : RawAttribute) : Option (List Attribute) := do
    let space ← scope.ofAttribute? a.name
    let name := String.ofList a.name.name
    if done.any fun b => b.space == space && b.name == name then none
    return done ++ [⟨space, name, String.ofList a.value⟩]
  (raw.filter (·.declaration?.isNone)).foldlM step []

/-- An element whose end tag is still to come, with its children so far in reverse. -/
structure OpenElement where
  name : QName
  attributes : List Attribute
  scope : Scope
  startTag : String
  children : List Node

structure Builder where
  root : Option Node := none
  ancestors : List OpenElement := []

/-- Adds a node at the end of the innermost open element. Adjacent texts become one. -/
def Builder.add? (b : Builder) (n : Node) : Option Builder :=
  match b.ancestors with
  | top :: rest =>
    let children := match n, top.children with
      | .text content source, .text before beforeSource :: children =>
        .text (before ++ content) (beforeSource ++ source) :: children
      | _, children => n :: children
    some { b with ancestors := { top with children := children } :: rest }
  | [] =>
    match n with
    | .element .. => if b.root.isSome then none else some { b with root := some n }
    | .text _ source => if source.toList.all isSpace then some b else none
    | .remark _ => some b

def OpenElement.close (e : OpenElement) (endTag : String) : Node :=
  .element (String.ofList e.name.name) e.attributes e.children.reverse e.startTag endTag

def Builder.open? (b : Builder) (name : QName) (raw : List RawAttribute) (source : String) :
    Option OpenElement := do
  let outer := (b.ancestors.head?.map (·.scope)).getD []
  let scope := (← declarations? raw) ++ outer
  if name.qualifier = xmlnsName then none
  if !name.qualifier.isEmpty && (scope.lookup name.qualifier).isNone then none
  return ⟨name, ← attributes? scope raw, scope, source, []⟩

def Builder.step? (b : Builder) (t : Token) : Option Builder :=
  let source := String.ofList t.source
  match t.kind with
  | .startTag name raw isEmpty => do
    if b.ancestors.isEmpty ∧ b.root.isSome then none
    let e ← b.open? name raw source
    if isEmpty then b.add? (e.close "") else some { b with ancestors := e :: b.ancestors }
  | .endTag name =>
    match b.ancestors with
    | [] => none
    | top :: rest =>
      if name = top.name then Builder.add? { b with ancestors := rest } (top.close source) else none
  | .text content => b.add? (.text (String.ofList content) source)
  | .remark => b.add? (.remark source)

/-- The version, encoding and standalone parts of a declaration. Only the first has to be there,
and their values are not looked at. -/
def skipDeclaration (cs : List Char) : Option (List Char) := do
  let part? (name : String) (cs : List Char) : Option (Option (List Char)) :=
    if name.toList.isPrefixOf cs then do
      let (_, cs) ← readQName cs
      let (_, rest) ← readQuoted cs
      return some rest
    else some none
  let blanks? (cs : List Char) : Option (List Char) :=
    if cs.head?.any isSpace then some (skipSpace cs)
    else if cs.isEmpty ∨ ['?', '>'].isPrefixOf cs then some cs
    else none
  let cs ← blanks? cs
  let cs ← blanks? (← (← part? "version" cs))
  let cs ← match ← part? "encoding" cs with
    | some rest => blanks? rest
    | none => some cs
  let cs := skipSpace ((← part? "standalone" cs).getD cs)
  let '?' :: '>' :: rest := cs | none
  return rest

/-- The root element of a document. There may be a byte order mark and a declaration before it,
but no document type. -/
def parse? (text : String) : Option Node := do
  let cs := text.toList
  let cs := if cs.head? = some '\uFEFF' then cs.tail else cs
  let cs ← if declarationStart.isPrefixOf cs then skipDeclaration (cs.drop 5) else some cs
  let b ← (← tokens? cs.length cs).foldlM Builder.step? {}
  if b.ancestors.isEmpty then b.root else none

end ODataGraph.Xml
