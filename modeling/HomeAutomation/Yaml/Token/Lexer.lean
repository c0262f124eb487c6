import HomeAutomation.Yaml.Token.Block
import HomeAutomation.Yaml.Token.Flow
import HomeAutomation.Yaml.Token.Tag

/-! The tokens of a text. Indentation opens and closes blocks, and what turns out to be a key by
the colon behind it gets its token in front of where it began. A key of this kind stands on one
line and is at most 1024 bytes long. -/

namespace HomeAutomation.Yaml

structure Candidate where
  /-- It must be one: it stands where a block expects a key. -/
  required : Bool
  token : Nat
  index : Nat
  line : Nat
  column : Nat

def Candidate.isStale (k : Candidate) (c : Cursor) : Bool :=
  k.line < c.line || k.index + 1024 < c.index

structure Lexer where
  cursor : Cursor
  tokens : Array Token := #[]
  blocks : List Nat := []
  /-- Where a key may have begun at this level of brackets. -/
  candidate : Option Candidate := none
  /-- The same for the levels around it; there is one for each open bracket. -/
  outer : List (Option Candidate) := []
  keyAllowed : Bool := true

namespace Lexer

def inBrackets (l : Lexer) : Bool := !l.outer.isEmpty

/-- The column of the innermost block; there is none left of the first column. -/
def indent (l : Lexer) : Int :=
  match l.blocks with
  | [] => -1
  | n :: _ => n

def push (l : Lexer) (t : Token) : Lexer := { l with tokens := l.tokens.push t }

def mark (l : Lexer) (t : Token) (length : Nat := 1) : Lexer :=
  { l.push t with cursor := l.cursor.skip length }

/-- Closes the blocks right of a column, unless brackets are open. -/
def closeBlocks (l : Lexer) (column : Int) : Lexer :=
  if l.inBrackets then l
  else
    let closed := l.blocks.takeWhile fun (n : Nat) => column < n
    { l with
      tokens := l.tokens ++ closed.map fun _ => Token.dedent
      blocks := l.blocks.drop closed.length }

/-- Opens a block at a column, if that is right of the innermost one and no brackets are open.
Its token comes behind so many others. -/
def openBlock (l : Lexer) (column : Nat) (t : Token) (position : Nat) : Lexer :=
  if l.inBrackets || column ≤ l.indent then l
  else
    { l with
      tokens := l.tokens.insertIdxIfInBounds position t
      blocks := column :: l.blocks }

/-- Forgets where a key may have begun; one that must be a key is an error. -/
def forget? (l : Lexer) : Option Lexer :=
  if l.candidate.any Candidate.required then none else some { l with candidate := none }

def remember? (l : Lexer) : Option Lexer :=
  if l.keyAllowed then
    l.forget?.map fun l =>
      let required := !l.inBrackets && l.indent = l.cursor.column
      let c := l.cursor
      { l with candidate := some ⟨required, l.tokens.size, c.index, c.line, c.column⟩ }
  else some l

def dropStale? (l : Lexer) : Option Lexer :=
  let stale (k : Candidate) : Bool := k.isStale l.cursor
  let keep (k : Option Candidate) : Option Candidate := k.filter fun k => !stale k
  if (l.candidate :: l.outer).any fun k => k.any fun k => stale k && k.required then none
  else some { l with candidate := keep l.candidate, outer := l.outer.map keep }

/-- Goes to the next token. Tabs count as blanks where no key may begin, and among brackets; a
byte order mark may begin a line. -/
def gapWithin : Nat → Lexer → Lexer
  | 0, l => l
  | n + 1, l =>
    let c := if l.cursor.column = 0 && l.cursor.sees '\uFEFF' then l.cursor.skip else l.cursor
    let tabs := l.inBrackets || !l.keyAllowed
    let c := (c.skipRun fun ch => ch = ' ' || (tabs && ch = '\t')).skipComment
    if c.at? isBreak then
      gapWithin n { l with cursor := c.nextLine, keyAllowed := l.keyAllowed || !l.inBrackets }
    else { l with cursor := c }

def skipGap (l : Lexer) : Lexer := gapWithin (l.cursor.rest.length + 1) l

/-- A directive, or a mark where a document begins or ends: it closes every block. -/
def atMargin? (l : Lexer) : Option Lexer :=
  (l.closeBlocks (-1)).forget?.map fun l => { l with keyAllowed := false }

def openBrackets? (l : Lexer) (t : Token) : Option Lexer :=
  l.remember?.map fun l =>
    { l.mark t with candidate := none, outer := l.candidate :: l.outer, keyAllowed := true }

def closeBrackets? (l : Lexer) (t : Token) : Option Lexer :=
  l.forget?.map fun l =>
    let l := match l.outer with
      | [] => l
      | k :: outer => { l with candidate := k, outer }
    { l.mark t with keyAllowed := false }

def comma? (l : Lexer) : Option Lexer :=
  l.forget?.map fun l => { l.mark .comma with keyAllowed := true }

def dash? (l : Lexer) : Option Lexer :=
  if !l.inBrackets && !l.keyAllowed then none
  else
    (l.openBlock l.cursor.column .beginSequence l.tokens.size).forget?.map fun l =>
      { l.mark .dash with keyAllowed := true }

def questionMark? (l : Lexer) : Option Lexer :=
  if !l.inBrackets && !l.keyAllowed then none
  else
    (l.openBlock l.cursor.column .beginMapping l.tokens.size).forget?.map fun l =>
      { l.mark .key with keyAllowed := !l.inBrackets }

/-- A colon: what is in front of it was a key, or one is missing. -/
def colon? (l : Lexer) : Option Lexer :=
  match l.candidate with
  | some k =>
    let l := { l with tokens := l.tokens.insertIdxIfInBounds k.token .key, candidate := none }
    some { (l.openBlock k.column .beginMapping k.token).mark .value with keyAllowed := false }
  | none =>
    if !l.inBrackets && !l.keyAllowed then none
    else
      let l := l.openBlock l.cursor.column .beginMapping l.tokens.size
      some { l.mark .value with keyAllowed := !l.inBrackets }

/-- Part of a node that may be or begin a key; no other key begins behind it. -/
def nodePart? (l : Lexer) (read : Cursor → Option (Token × Cursor)) : Option Lexer :=
  l.remember?.bind fun l =>
    (read l.cursor).map fun (t, cursor) => { l.push t with cursor, keyAllowed := false }

def quotedScalar? (quote : Char) (c : Cursor) : Option (Token × Cursor) :=
  (quoted? quote c).map fun (cs, c) => (.scalar (String.ofList cs) false, c)

def blockScalar? (l : Lexer) (folded : Bool) : Option Lexer :=
  l.forget?.bind fun l =>
    (Block.read? folded l.indent l.cursor).map fun (cs, cursor) =>
      { l.push (.scalar (String.ofList cs) false) with cursor, keyAllowed := true }

def plainScalar? (l : Lexer) : Option Lexer :=
  l.remember?.bind fun l =>
    (plain? l.inBrackets (l.indent + 1) l.cursor).map fun p =>
      { l.push (.scalar (String.ofList p.text) true) with
        cursor := p.cursor, keyAllowed := p.breaksLine }

/-- Characters that begin no plain scalar, or do so only in front of certain others. -/
def isIndicator (c : Char) : Bool := "-?:,[]\x7b\x7d#&*!|>\x27\x22%@\x60".toList.contains c

def beginsPlain (l : Lexer) (ch : Char) : Bool :=
  let c := l.cursor
  !(isBlank ch || isBreak ch || isIndicator ch) || (ch = '-' && !c.at? isBlank 1) ||
    (!l.inBrackets && (ch = '?' || ch = ':') && !c.wordEnds 1)

def token? (l : Lexer) (ch : Char) : Option Lexer :=
  let c := l.cursor
  let alone := l.inBrackets || c.wordEnds 1
  if c.column = 0 && ch = '%' then
    l.atMargin?.bind fun l => (directive? l.cursor).map fun (t, cursor) => { l.push t with cursor }
  else if c.isMark '-' then l.atMargin?.map fun l => l.mark .documentStart 3
  else if c.isMark '.' then l.atMargin?.map fun l => l.mark .documentEnd 3
  else if ch = '[' then l.openBrackets? .openBracket
  else if ch = '\x7b' then l.openBrackets? .openBrace
  else if ch = ']' then l.closeBrackets? .closeBracket
  else if ch = '\x7d' then l.closeBrackets? .closeBrace
  else if ch = ',' then l.comma?
  else if ch = '-' && c.wordEnds 1 then l.dash?
  else if ch = '?' && alone then l.questionMark?
  else if ch = ':' && alone then l.colon?
  else if ch = '*' then
    l.nodePart? fun c => (anchorName? c).map fun (name, c) => (.alias name, c)
  else if ch = '&' then
    l.nodePart? fun c => (anchorName? c).map fun (name, c) => (.anchor name, c)
  else if ch = '!' then l.nodePart? (tag? l.inBrackets)
  else if (ch = '|' || ch = '>') && !l.inBrackets then l.blockScalar? (ch = '>')
  else if ch = '\'' || ch = '"' then l.nodePart? (quotedScalar? ch)
  else if l.beginsPlain ch then l.plainScalar?
  else none

def tokensWithin : Nat → Lexer → Option (List Token)
  | 0, _ => none
  | n + 1, l => do
    let l ← l.skipGap.dropStale?
    let l := l.closeBlocks l.cursor.column
    match l.cursor.peek with
    | none => (l.closeBlocks (-1)).forget?.map fun l => l.tokens.toList
    | some ch => tokensWithin n (← l.token? ch)

end Lexer

def tokens? (text : String) : Option (List Token) :=
  let cs := text.toList
  if cs.all isPrintable then Lexer.tokensWithin (cs.length + 1) { cursor := { rest := cs } } else none

end HomeAutomation.Yaml
