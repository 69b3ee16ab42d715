/-
# Reading a document

A document is one value: a scalar, a list or a map. Lists and maps are written
in brackets or by indentation. By indentation the items of a list stand behind
dashes in one column and the keys of a map in one column; what belongs to an
item or a key stands further to the right, except that the dashes of a list may
stand in the column of the key that it belongs to. A key stands in one line
with the colon behind it and is no longer than 1024 characters.

This is a part of the format. The rest is refused: anchors, tags, directives, blocks
of literal text, explicit and merged keys, and a second document.

Key definitions: `Value.read?`.
-/
import Handout.Yaml.Keys
import Handout.Yaml.ScalarReader

namespace Handout

namespace Cursor

/-- Does an item of a list begin here? -/
def isDash (c : Cursor) : Bool :=
  c.isMark ['-']

/-- Does a colon stand here, after a key? In brackets it needs no blank behind
it. -/
def isColon (inBrackets : Bool) (c : Cursor) : Bool :=
  if inBrackets then c.rest.head? == some ':' else c.isMark [':']

/-- Does a key that begins here end at the given colon? -/
def isKeyUpTo (colon c : Cursor) : Bool :=
  colon.line == c.line && c.rest.length ≤ colon.rest.length + 1024

end Cursor

/-- What is read: a value and the place after it and the gap behind it. -/
abbrev Reading := Option (Value × Cursor)

mutual
/-- A scalar, or a list or map in brackets. -/
def readInline (inBrackets : Bool) (least : Nat) : Nat → Cursor → Reading
  | 0, _ => none
  | fuel + 1, c =>
    if c.isMarker then none
    else
      match c.rest with
      | '[' :: _ => readItems fuel [] (c.skip 1).gap
      | '\x7b' :: _ => readPairs fuel [] (c.skip 1).gap
      | '\'' :: _ => c.singleQuoted.map fun p => (.text p.1, p.2.gap)
      | '"' :: _ => c.doubleQuoted.map fun p => (.text p.1, p.2.gap)
      | rest =>
        if beginsPlain inBrackets rest then
          let p := c.plain inBrackets least
          (Plain.resolve p.1).map fun v => (v, p.2.gap)
        else none
/-- The items of a list in brackets, after those that were read. -/
def readItems : Nat → List Value → Cursor → Reading
  | 0, _, _ => none
  | fuel + 1, items, c =>
    if c.rest.head? = some ']' then some (.list items.reverse, (c.skip 1).gap)
    else do
      let (item, next) ← readItem fuel c
      match next.rest with
      | ',' :: _ => readItems fuel (item :: items) (next.skip 1).gap
      | ']' :: _ => some (.list (item :: items).reverse, (next.skip 1).gap)
      | _ => none
/-- An item of a list in brackets; a key and a value are a map. -/
def readItem : Nat → Cursor → Reading
  | 0, _ => none
  | fuel + 1, c => do
    let (key, colon) ← readInline true 0 fuel c
    if colon.isColon true && colon.isKeyUpTo c then
      let (value, next) ← readPairValue fuel (colon.skip 1).gap
      if key.isKey then some (.map [(key, value)], next) else none
    else some (key, colon)
/-- The value behind a colon in brackets, which may be missing. -/
def readPairValue : Nat → Cursor → Reading
  | 0, _ => none
  | fuel + 1, c =>
    match c.rest with
    | ',' :: _ | ']' :: _ | '\x7d' :: _ => some (.null, c)
    | _ => readInline true 0 fuel c
/-- The pairs of a map in brackets, after those that were read. -/
def readPairs : Nat → List (Value × Value) → Cursor → Reading
  | 0, _, _ => none
  | fuel + 1, pairs, c =>
    if c.rest.head? = some '\x7d' then some (.map pairs, (c.skip 1).gap)
    else do
      let (key, colon) ← readInline true 0 fuel c
      let (value, next) ←
        if colon.isColon true && colon.isKeyUpTo c then readPairValue fuel (colon.skip 1).gap
        else some (.null, colon)
      if !key.isKey then none
      else
        match next.rest with
        | ',' :: _ => readPairs fuel (Value.setKey key value pairs) (next.skip 1).gap
        | '\x7d' :: _ => some (.map (Value.setKey key value pairs), (next.skip 1).gap)
        | _ => none
end

mutual
/-- A value, the lines of which are indented by at least `least`. A list or a map
can begin here only if `keyed`. -/
def readNode (least : Nat) (keyed : Bool) : Nat → Cursor → Reading
  | 0, _ => none
  | fuel + 1, c =>
    if c.isDash then if keyed then readList c.column false fuel [] c else none
    else do
      let (value, next) ← readInline false least fuel c
      if !next.isColon false then some (value, next)
      else if keyed then readMap c.column fuel [] c
      else none
termination_by structural fuel => fuel
/-- The items of a list whose dashes stand in a column, after those that were
read. In the column of a key a list ends where no dash stands. -/
def readList (column : Nat) (inKey : Bool) : Nat → List Value → Cursor → Reading
  | 0, _, _ => none
  | fuel + 1, items, c => do
    let after := c.skip 1
    let first := after.gap
    let (item, next) ←
      if first.atEnd || (first.line != after.line && first.column ≤ column) then
        some (.null, first)
      else readNode (column + 1) true fuel first
    if next.atEnd || next.column < column then some (.list (item :: items).reverse, next)
    else if next.column > column then none
    else if next.isDash then readList column inKey fuel (item :: items) next
    else if inKey then some (.list (item :: items).reverse, next)
    else none
termination_by structural fuel => fuel
/-- The pairs of a map whose keys stand in a column, after those that were
read. -/
def readMap (column : Nat) : Nat → List (Value × Value) → Cursor → Reading
  | 0, _, _ => none
  | fuel + 1, pairs, c => do
    let (key, colon) ← readInline false (column + 1) fuel c
    if !(colon.isColon false && colon.isKeyUpTo c && key.isKey) then none
    else
      let (value, next) ← readMapValue column fuel (colon.skip 1)
      if next.atEnd || next.column < column then some (.map (Value.setKey key value pairs), next)
      else if next.column > column then none
      else readMap column fuel (Value.setKey key value pairs) next
termination_by structural fuel => fuel
/-- The value behind a colon of a map whose keys stand in a column. -/
def readMapValue (column : Nat) : Nat → Cursor → Reading
  | 0, _ => none
  | fuel + 1, after =>
    let first := after.gap
    if first.atEnd then some (.null, first)
    else if first.line = after.line then readNode (column + 1) false fuel first
    else if first.column > column then readNode (column + 1) true fuel first
    else if first.column = column && first.isDash then readList column true fuel [] first
    else some (.null, first)
termination_by structural fuel => fuel
end

/-- Can the character stand in a document? -/
def isWritable (c : Char) : Bool :=
  let n := c.toNat
  n == 0x09 || n == 0x0A || (0x20 ≤ n && n ≤ 0x7E) || n == 0x85 || (0xA0 ≤ n && n ≤ 0xD7FF)
    || (0xE000 ≤ n && n ≤ 0xFFFD) || 0x10000 ≤ n

/-- Drops a byte order mark in front of a text. -/
def dropMark : Text → Text
  | '\ufeff' :: r => r
  | t => t

/-- Do only closing marks follow? -/
def isClosed : Nat → Cursor → Bool
  | 0, _ => false
  | fuel + 1, c => c.rest.isEmpty || (c.isClosing && isClosed fuel (c.skip 3).gap)

/-- The value of a document; an empty one denotes nothing. -/
def Value.read? (t : Text) : Option Value :=
  let first := (Cursor.start (dropMark t)).gap
  let fuel := 4 * t.length + 8
  if !t.all isWritable then none
  else if first.rest.isEmpty then some .null
  else do
    let (value, next) ←
      if first.isOpening then
        let body := (first.skip 3).gap
        if body.atEnd then some (.null, body)
        else readNode 0 (body.line != first.line) fuel body
      else readNode 0 true fuel first
    if isClosed fuel next then some value else none

end Handout
