/-
PyNetFT.Core.XmlGrammar — what a sensor configuration is.

A reference for the scanner of `XmlConfig`, in two levels and without
positions, stacks or loops. A TOKEN is character data, a comment, a CDATA
section, a processing instruction or a tag, each with its rendering as
bytes. A DOCUMENT is a forest of elements over these tokens
(`PyNetFT.Lib.Forest`): an element is a start tag, a forest and an end
tag of the same name. `Document.Ok` says which documents are accepted and
`Document.fields` what they say; `XmlAgreement` shows that
`extract_required_fields` computes that.
-/
import PyNetFT.Core.XmlConfig
import PyNetFT.Lib.Nested
import Mathlib.Data.List.Infix

namespace PyNetFT.Core

open PyNetFT.Lib

/-! ## Tokens -/

/-- ASCII whitespace only. -/
def Blank (bytes : View) : Prop := ∀ c ∈ bytes, isAsciiWhitespace c = true

/-- The text of a tag: quotes come in pairs, and a `>` stands between
quotes only. -/
inductive Quoted : View → Prop where
  | nil : Quoted []
  | plain {c : UInt8} {rest : View} (quote : ¬ (c = 0x27 ∨ c = 0x22)) (bracket : c ≠ 0x3e)
      (tail : Quoted rest) : Quoted (c :: rest)
  | quoted {q : UInt8} {body rest : View} (quote : q = 0x27 ∨ q = 0x22) (inside : q ∉ body)
      (tail : Quoted rest) : Quoted (q :: (body ++ q :: rest))

/-- What stands between `<` and `>` of a tag: not `!...` or `?...`, which
are other markup. -/
structure TagText (inner : View) : Prop where
  quoted : Quoted inner
  noDeclaration : inner.head? ≠ some 0x21
  noInstruction : inner.head? ≠ some 0x3f

/-- The name of a start or self-closing tag, up to the first whitespace. -/
structure StartName (name rest : View) : Prop where
  nonempty : name ≠ []
  solid : ∀ c ∈ name, isAsciiWhitespace c = false
  noSlash : name.head? ≠ some 0x2f
  rest : ∀ c ∈ rest.head?, isAsciiWhitespace c = true

/-- `<name ...>`, with whitespace before the name. -/
structure StartTag where
  lead : View
  name : View
  rest : View
  deriving DecidableEq

def StartTag.inner (tag : StartTag) : View := tag.lead ++ (tag.name ++ tag.rest)

/-- A start tag is not self-closing: its last byte that is not whitespace
is no slash. -/
structure StartTag.Ok (tag : StartTag) : Prop where
  text : TagText tag.inner
  lead : Blank tag.lead
  name : StartName tag.name tag.rest
  stays : ∀ front gap, tag.name ++ tag.rest = front ++ 0x2f :: gap → ¬ Blank gap

/-- `<name .../>`, with whitespace before the name and behind the slash. -/
structure EmptyTag where
  lead : View
  name : View
  rest : View
  gap : View
  deriving DecidableEq

def EmptyTag.inner (tag : EmptyTag) : View := tag.lead ++ (tag.name ++ tag.rest ++ 0x2f :: tag.gap)

structure EmptyTag.Ok (tag : EmptyTag) : Prop where
  text : TagText tag.inner
  lead : Blank tag.lead
  name : StartName tag.name tag.rest
  gap : Blank tag.gap

/-- `</name>`, with whitespace around the slash and the name. -/
structure EndTag where
  lead : View
  gap : View
  name : View
  tail : View
  deriving DecidableEq

def EndTag.inner (tag : EndTag) : View := tag.lead ++ 0x2f :: (tag.gap ++ tag.name ++ tag.tail)

structure EndTag.Ok (tag : EndTag) : Prop where
  text : TagText tag.inner
  lead : Blank tag.lead
  gap : Blank tag.gap
  tail : Blank tag.tail
  nonempty : tag.name ≠ []
  solid : ∀ c ∈ tag.name, isAsciiWhitespace c = false ∧ c ≠ 0x2f

/-- The tokens that open and close nothing. -/
inductive Leaf where
  | text (bytes : View)
  | comment (body : View)
  | cdata (body : View)
  | instruction (body : View)
  | empty (tag : EmptyTag)
  deriving DecidableEq

abbrev Token := Bracket StartTag EndTag Leaf

/-- A tag as bytes. -/
def angle (inner : View) : View := 0x3c :: (inner ++ [0x3e])

def Leaf.render : Leaf → View
  | .text bytes => bytes
  | .comment body => ascii "<!--" ++ (body ++ ascii "-->")
  | .cdata body => ascii "<![CDATA[" ++ (body ++ ascii "]]>")
  | .instruction body => ascii "<?" ++ (body ++ ascii "?>")
  | .empty tag => angle tag.inner

def Token.render : Token → View
  | .leaf l => l.render
  | .opening tag => angle tag.inner
  | .closing tag => angle tag.inner

/-- A section ends with the first occurrence of its delimiter; character
data has no `<`. -/
def Leaf.Ok : Leaf → Prop
  | .text bytes => 0x3c ∉ bytes
  | .comment body => ¬ ascii "-->" <:+: body
  | .cdata body => ¬ ascii "]]>" <:+: body
  | .instruction body => ¬ ascii "?>" <:+: body
  | .empty tag => tag.Ok

def Token.Ok : Token → Prop
  | .leaf l => l.Ok
  | .opening tag => tag.Ok
  | .closing tag => tag.Ok

/-- Tokens one behind the other. -/
def renderTokens (tokens : List Token) : View := (tokens.map Token.render).flatten

/-! ## Documents -/

abbrev Document := Forest StartTag EndTag Leaf

namespace Document

/-- The character data and CDATA of an element in order, without comments
and processing instructions. -/
def content : Document → View
  | .nil => []
  | .leaf (.text bytes) rest => bytes ++ content rest
  | .leaf (.cdata body) rest => body ++ content rest
  | .leaf _ rest => content rest
  | .node _ _ _ rest => content rest

/-- No element, not even a self-closing one. -/
def TextOnly : Document → Prop
  | .nil => True
  | .leaf (.empty _) _ => False
  | .leaf _ rest => TextOnly rest
  | .node _ _ _ _ => False

/-- The required elements contain text only, at every depth. -/
def FieldsText : Document → Prop
  | .nil => True
  | .leaf _ rest => FieldsText rest
  | .node tag children _ rest =>
      ((requiredTagIndex tag.name).isSome = true → TextOnly children) ∧ FieldsText children ∧
        FieldsText rest

/-- The required elements with their contents, in document order. -/
def required : Document → List (Fin 5 × View)
  | .nil => []
  | .leaf (.empty tag) rest =>
      (requiredTagIndex tag.name).toList.map (fun index => (index, [])) ++ required rest
  | .leaf _ rest => required rest
  | .node tag children _ rest =>
      (requiredTagIndex tag.name).toList.map (fun index => (index, content children)) ++
        (required children ++ required rest)

/-- The documents that are accepted. -/
structure Ok (document : Document) : Prop where
  tokens : ∀ token ∈ document.flatten, Token.Ok token
  nested : document.Matched fun first last => first.name = last.name
  fieldsText : FieldsText document
  once : ((required document).map Prod.fst).Nodup
  present : ∀ index, index ≠ 0 → index ∈ (required document).map Prod.fst
  contents : ∀ field ∈ required document,
    1 ≤ (trimAsciiWhitespace field.2).length ∧ (trimAsciiWhitespace field.2).length ≤ 128

/-- The five contents in tag order. Legacy firmware has no product name. -/
def fields (document : Document) : List View :=
  (List.finRange 5).map fun index =>
    match (required document).lookup index with
    | some text => trimAsciiWhitespace text
    | none => ascii "ATI Net F/T"

/-- The bytes of a document. -/
def render (document : Document) : View := renderTokens document.flatten

end Document

end PyNetFT.Core
