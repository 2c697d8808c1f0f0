import ApiScaffold.Yaml.Block
import ApiScaffold.Yaml.Plain
import ApiScaffold.Yaml.Tag

/-!
# Tokens

The tokens of a YAML text. Indentation is made explicit: a block collection begins with a
token of its own and ends with one. A key without a mark is known as a key only at the colon
after it, so what may turn out to be one is remembered, one place for every level of flow
collections, and the token for the key is put in later. Such a key has to end on its line and
within 1024 characters. A text that is no YAML has tokens up to its fault.
-/
namespace ApiScaffold.Yaml

open Text

inductive Token where
  | directive (d : Directive)
  | documentStart | documentEnd | streamEnd
  | sequenceStart | mappingStart | blockEnd
  | flowSequenceStart | flowSequenceEnd | flowMappingStart | flowMappingEnd
  | flowEntry | blockEntry | key | value
  | «alias» (name : Text)
  | anchor (name : Text)
  | tag (t : WrittenTag)
  | scalar (plain : Bool) (text : Text)
  | fault (f : Fault)
  deriving Repr

/-- A place where a key may have begun. -/
structure PossibleKey where
  /-- The count of tokens before it. -/
  tokens : Nat
  /-- Whether nothing but a key can stand there. -/
  required : Bool
  index : Nat
  line : Nat
  column : Nat
  deriving Repr

structure Lexer where
  cursor : Cursor
  /-- The tokens so far, the last one first. -/
  found : List Token := []
  count : Nat := 0
  /-- The column of the innermost block collection. -/
  indent : Int := -1
  outerIndents : List Int := []
  /-- The possible key of every level, the innermost flow collection first. -/
  keys : List (Option PossibleKey) := [none]
  /-- Whether a key without a mark may begin here. -/
  allowsKey : Bool := true
  ended : Bool := false
  deriving Repr

namespace Lexer

def inFlow (l : Lexer) : Bool := 1 < l.keys.length

def emit (t : Token) (l : Lexer) : Lexer :=
  { l with found := t :: l.found, count := l.count + 1 }

/-- Emits a token of some characters. -/
def emitOver (n : Nat) (t : Token) (l : Lexer) : Lexer :=
  ({ l with cursor := l.cursor.skip n }).emit t

/-- Puts a token in where the given number of tokens is before it. -/
def emitAt (position : Nat) (t : Token) (l : Lexer) : Lexer :=
  let after := l.count - position
  { l with found := l.found.take after ++ t :: l.found.drop after, count := l.count + 1 }

/-- Goes over blanks, comments and line breaks to the next token. -/
def skipBlanks : Nat → Lexer → Lexer
  | 0, l => l
  | fuel + 1, l =>
    let s := l.cursor.skipComment
    match s.lineBreak? with
    | none => { l with cursor := s }
    | some (_, s) =>
      skipBlanks fuel { l with cursor := s, allowsKey := l.allowsKey || !l.inFlow }

/-- Whether a key that began at a place cannot end here any more. -/
def isStale (s : Cursor) (k : PossibleKey) : Bool := k.line != s.line || 1024 < s.index - k.index

def dropStale (s : Cursor) :
    List (Option PossibleKey) → Except Fault (List (Option PossibleKey))
  | [] => .ok []
  | none :: rest => (dropStale s rest).map (none :: ·)
  | some k :: rest =>
    if isStale s k then
      if k.required then .error .malformed else (dropStale s rest).map (none :: ·)
    else (dropStale s rest).map (some k :: ·)

/-- Ends the block collections that stand further in than a column. -/
def unwind (column : Int) : List Int → Lexer → Lexer
  | [], l => l
  | outer :: rest, l =>
    if !l.inFlow ∧ column < l.indent then
      unwind column rest ({ l with indent := outer, outerIndents := rest }.emit .blockEnd)
    else l

def unwindTo (column : Int) (l : Lexer) : Lexer := l.unwind column l.outerIndents

/-- Opens a block collection at a column, unless one is open there. -/
def indentTo (column : Nat) (t : Token) (position : Nat) (l : Lexer) : Lexer :=
  if l.indent < column then
    ({ l with indent := column, outerIndents := l.indent :: l.outerIndents }).emitAt position t
  else l

/-- Forgets the possible key of the innermost level. -/
def forgetKey (l : Lexer) : Except Fault Lexer :=
  match l.keys with
  | some k :: rest =>
    if k.required then .error .malformed else .ok { l with keys := none :: rest }
  | _ => .ok l

/-- Remembers that a key may begin here. -/
def rememberKey (l : Lexer) : Except Fault Lexer :=
  if l.allowsKey then
    let s := l.cursor
    let required := !l.inFlow && l.indent == s.column
    l.forgetKey.map fun l =>
      { l with keys := some ⟨l.count, required, s.index, s.line, s.column⟩ :: l.keys.drop 1 }
  else .ok l

/-- Ends all collections before something that stands between documents. -/
def leaveDocument (l : Lexer) : Except Fault Lexer :=
  (l.unwindTo (-1)).forgetKey.map fun l => { l with allowsKey := false }

def documentMark (t : Token) (l : Lexer) : Except Fault Lexer :=
  l.leaveDocument.map (emitOver 3 t)

def directiveLine (l : Lexer) : Except Fault Lexer :=
  l.leaveDocument.bind fun l =>
    (directive l.cursor.next).map fun (d, s) => ({ l with cursor := s }).emit (.directive d)

def flowStart (t : Token) (l : Lexer) : Except Fault Lexer :=
  l.rememberKey.map fun l => ({ l with keys := none :: l.keys, allowsKey := true }).emitOver 1 t

def flowEnd (t : Token) (l : Lexer) : Except Fault Lexer :=
  if l.inFlow then
    l.forgetKey.map fun l => ({ l with keys := l.keys.drop 1, allowsKey := false }).emitOver 1 t
  else .error .malformed

def flowEntry (l : Lexer) : Except Fault Lexer :=
  l.forgetKey.map fun l => ({ l with allowsKey := true }).emitOver 1 .flowEntry

/-- Opens a block collection for an entry that stands here, which only a new line allows. -/
def openBlock (t : Token) (l : Lexer) : Except Fault Lexer :=
  if l.inFlow then .ok l
  else if l.allowsKey then .ok (l.indentTo l.cursor.column t l.count)
  else .error .malformed

def blockEntry (l : Lexer) : Except Fault Lexer :=
  (l.openBlock .sequenceStart).bind fun l =>
    l.forgetKey.map fun l => ({ l with allowsKey := true }).emitOver 1 .blockEntry

def markedKey (l : Lexer) : Except Fault Lexer :=
  (l.openBlock .mappingStart).bind fun l =>
    l.forgetKey.map fun l => ({ l with allowsKey := !l.inFlow }).emitOver 1 .key

/-- A colon. It makes a key of what began at the remembered place, if there is one. -/
def valueMark (l : Lexer) : Except Fault Lexer :=
  match l.keys with
  | some k :: rest =>
    let l := ({ l with keys := none :: rest, allowsKey := false }).emitAt k.tokens .key
    let l := if l.inFlow then l else l.indentTo k.column .mappingStart k.tokens
    .ok (l.emitOver 1 .value)
  | _ =>
    (l.openBlock .mappingStart).map fun l =>
      ({ l with allowsKey := !l.inFlow }).emitOver 1 .value

def isNameEnd (c : Char) : Bool := isBlankOrEnd c || ("?:,]\x7d%@\u0060" : Text).contains c

/-- A name behind its indicator. -/
def named (t : Text → Token) (l : Lexer) : Except Fault Lexer :=
  l.rememberKey.bind fun l =>
    let (name, s) := l.cursor.next.span isWordOrHyphen
    if name = [] ∨ !isNameEnd s.peek then .error .malformed
    else .ok (({ l with cursor := s, allowsKey := false }).emit (t name))

def tagToken (l : Lexer) : Except Fault Lexer :=
  l.rememberKey.bind fun l =>
    (writtenTag l.cursor).map fun (t, s) =>
      ({ l with cursor := s, allowsKey := false }).emit (.tag t)

def blockText (folded : Bool) (l : Lexer) : Except Fault Lexer :=
  l.forgetKey.bind fun l =>
    (blockScalar folded l.indent l.cursor).map fun (t, s) =>
      ({ l with cursor := s, allowsKey := true }).emit (.scalar false t)

def quotedText (double : Bool) (l : Lexer) : Except Fault Lexer :=
  l.rememberKey.bind fun l =>
    (quotedScalar double l.cursor).map fun (t, s) =>
      ({ l with cursor := s, allowsKey := false }).emit (.scalar false t)

def plainText (l : Lexer) : Except Fault Lexer :=
  l.rememberKey.map fun l =>
    let (t, crossed, s) := plainScalar l.inFlow (l.indent + 1) l.cursor
    ({ l with cursor := s, allowsKey := crossed }).emit (.scalar true t)

def startsPlain (inFlow : Bool) (c next : Char) : Bool :=
  !(isBlankOrEnd c || ("-?:,[]\x7b\x7d#&*!|>'\"%@\u0060" : Text).contains c) ||
    (!isBlankOrEnd next && (c == '-' || (!inFlow && (c == '?' || c == ':'))))

/-- Reads the next token, which may bring others with it. -/
def step (l : Lexer) : Except Fault Lexer :=
  let l := l.skipBlanks l.cursor.fuel
  (dropStale l.cursor l.keys).bind fun keys =>
    let l := { l with keys }.unwindTo l.cursor.column
    let s := l.cursor
    let c := s.peek
    let standsAlone := isBlankOrEnd (s.peek 1)
    if s.rest = [] then
      l.leaveDocument.map fun l => { l.emit .streamEnd with ended := true }
    else if c = '%' ∧ s.column = 0 then l.directiveLine
    else if s.column = 0 ∧ s.isAtMark "---" then l.documentMark .documentStart
    else if s.column = 0 ∧ s.isAtMark "..." then l.documentMark .documentEnd
    else if c = '[' then l.flowStart .flowSequenceStart
    else if c = '\x7b' then l.flowStart .flowMappingStart
    else if c = ']' then l.flowEnd .flowSequenceEnd
    else if c = '\x7d' then l.flowEnd .flowMappingEnd
    else if c = ',' then l.flowEntry
    else if c = '-' ∧ standsAlone then l.blockEntry
    else if c = '?' ∧ (l.inFlow ∨ standsAlone) then l.markedKey
    else if c = ':' ∧ (l.inFlow ∨ standsAlone) then l.valueMark
    else if c = '*' then l.named .«alias»
    else if c = '&' then l.named .anchor
    else if c = '!' then l.tagToken
    else if c = '|' ∧ !l.inFlow then l.blockText false
    else if c = '>' ∧ !l.inFlow then l.blockText true
    else if c = '\'' then l.quotedText false
    else if c = '"' then l.quotedText true
    else if startsPlain l.inFlow c (s.peek 1) then l.plainText
    else .error .malformed

/-- All tokens, up to the end of the text or to its fault. -/
def run : Nat → Lexer → List Token
  | 0, l => (Token.fault .malformed :: l.found).reverse
  | fuel + 1, l =>
    match l.step with
    | .error f => (Token.fault f :: l.found).reverse
    | .ok l => if l.ended then l.found.reverse else run fuel l

end Lexer

/-- The tokens of a text. A byte order mark at its very start is left out. -/
def tokens (t : Text) : List Token :=
  let s : Cursor := { rest := t }
  let s := if s.peek.toNat = 0xFEFF then s.next else s
  ({ cursor := s : Lexer }).run (s.fuel + 1)

end ApiScaffold.Yaml
