import RuleDesk.Toml.Scalar

/-!
# Documents of TOML

A document is a sequence of lines: headers, which say in which table the values
below them stand, and values under keys. `Document.parse?` fails when a line is
misspelled or says something twice.
-/
namespace RuleDesk.Toml

def spaces : Reader Unit := Reader.skipWhile isSpace

def comment : Reader Unit := do
  Reader.literal "#"
  Reader.skipWhile isPlain

def lineEnd : Reader Unit := Reader.literal "\n" <|> Reader.literal "\r\n"

/-- The end of a line or of the text, behind blanks and a comment. -/
def endOfLine : Reader Unit := do
  spaces
  let _ ← Reader.option comment
  if (← get).isEmpty then pure () else lineEnd

/-- Blanks, comments and line ends, at most `fuel` of them. -/
def gap : (fuel : Nat) → Reader Unit
  | 0 => pure ()
  | fuel + 1 => do
    spaces
    match ← Reader.option (comment <|> lineEnd) with
    | some () => gap fuel
    | none => pure ()

def isBareKeyChar (c : Char) : Bool :=
  c.isAlphanum || c == '_' || c == '-'

def simpleKey : Reader String := do
  match ← Reader.peek with
  | some '"' | some '\'' => shortString
  | _ =>
    let cs ← Reader.takeWhile isBareKeyChar
    if cs.isEmpty then Reader.fail else return String.ofList cs

/-- Further segments of a dotted key, at most `fuel` of them. -/
def moreSegments : (fuel : Nat) → Reader (List String)
  | 0 => pure []
  | fuel + 1 => do
    match ← Reader.option (do spaces; Reader.literal ".") with
    | none => return []
    | some () =>
      spaces
      let segment ← simpleKey
      let rest ← moreSegments fuel
      return segment :: rest

/-- How deeply arrays, inline tables and dotted keys may be nested. -/
def nestingLimit : Nat := 80

/-- A dotted key with blanks around it. -/
def dottedKey : Reader (List String) := do
  spaces
  let first ← simpleKey
  let rest ← moreSegments (← get).length
  spaces
  if nestingLimit ≤ rest.length + 1 then Reader.fail else return first :: rest

/-- The entries that inline tables may hold: no key stands twice. -/
def inlineEntries? (pairs : List (List String × Value)) : Option Entries :=
  pairs.foldlM (fun entries pair => Entries.assign entries pair.1 pair.2) []

mutual

/-- Entries as a value. -/
def Item.toValue : Item → Value
  | .value v => v
  | .table _ _ entries => .inlineTable (Item.toValues entries)
  | .tables _ => .array []

def Item.toValues : List (String × Item) → List (String × Value)
  | [] => []
  | (key, item) :: rest => (key, item.toValue) :: Item.toValues rest

end

def scalar : Reader Value := do
  match ← Reader.peek with
  | some '"' | some '\'' => .string <$> string
  | some 't' => (fun _ => .boolean true) <$> Reader.literal "true"
  | some 'f' => (fun _ => .boolean false) <$> Reader.literal "false"
  | _ =>
    (.moment <$> Reader.spelling moment) <|> (.float <$> Reader.spelling float) <|> integer

mutual

/-- A value with room for `room` nested arrays and tables. -/
def value (fuel room : Nat) : Reader Value :=
  match fuel with
  | 0 => Reader.fail
  | fuel + 1 => do
    match ← Reader.peek with
    | some '[' =>
      if room ≤ 1 then Reader.fail
      else
        Reader.literal "["
        .array <$> arrayItems fuel (room - 1)
    | some '\x7b' =>
      if room ≤ 1 then Reader.fail
      else
        Reader.literal "\x7b"
        spaces
        let pairs ← match ← Reader.option (Reader.literal "\x7d") with
          | some () => pure []
          | none => inlinePairs fuel (room - 1)
        match inlineEntries? pairs with
        | some entries => return .inlineTable (Item.toValues entries)
        | none => Reader.fail
    | _ => scalar

/-- The items of an array up to its bracket. A comma may follow the last one. -/
def arrayItems (fuel room : Nat) : Reader (List Value) :=
  match fuel with
  | 0 => Reader.fail
  | fuel + 1 => do
    gap (← get).length
    match ← Reader.option (Reader.literal "]") with
    | some () => return []
    | none =>
      let first ← value fuel room
      gap (← get).length
      match ← Reader.option (Reader.literal ",") with
      | some () =>
        let rest ← arrayItems fuel room
        return first :: rest
      | none =>
        Reader.literal "]"
        return [first]

/-- The pairs of an inline table up to its brace, all on one line. -/
def inlinePairs (fuel room : Nat) : Reader (List (List String × Value)) :=
  match fuel with
  | 0 => Reader.fail
  | fuel + 1 => do
    let key ← dottedKey
    Reader.literal "="
    spaces
    let v ← value fuel room
    spaces
    match ← Reader.option (Reader.literal ",") with
    | some () =>
      let rest ← inlinePairs fuel room
      return (key, v) :: rest
    | none =>
      Reader.literal "\x7d"
      return [(key, v)]

end

inductive Line where
  | blank
  | header (path : List String)
  | arrayHeader (path : List String)
  | assignment (path : List String) (v : Value)
deriving Repr

def line : Reader Line := do
  spaces
  let content : Reader Line := do
    match ← Reader.peek with
    | some '[' =>
      match ← Reader.option (Reader.literal "[[") with
      | some () =>
        let path ← dottedKey
        Reader.literal "]]"
        return .arrayHeader path
      | none =>
        Reader.literal "["
        let path ← dottedKey
        Reader.literal "]"
        return .header path
    | none | some '#' | some '\n' | some '\r' => return .blank
    | some _ =>
      let path ← dottedKey
      Reader.literal "="
      spaces
      let v ← value (2 * (← get).length + 2) nestingLimit
      return .assignment path v
  let l ← content
  endOfLine
  return l

/-- The lines of a text, at most `fuel` of them. -/
def lines? : (fuel : Nat) → List Char → Option (List Line)
  | _, [] => some []
  | 0, _ => none
  | fuel + 1, s => do
    let (l, rest) ← line s
    let later ← lines? fuel rest
    return l :: later

/-- A document in the middle: the tables that are complete, and the one that
values go to now. -/
structure Building where
  root : Entries := []
  path : List String := []
  /-- Whether the table now belongs to a repeated header. -/
  repeated : Bool := false
  entries : Entries := []

namespace Building

/-- Puts the table of now where it belongs. -/
def finish (b : Building) : Option Entries :=
  match b.path.getLast? with
  | none => some b.entries
  | some key =>
    Entries.change (fun _ parent =>
      if b.repeated then
        match parent.lookup key with
        | none => some (parent ++ [(key, .tables [b.entries])])
        | some (.tables list) => some (parent.set key (.tables (list ++ [b.entries])))
        | some _ => none
      else some (parent.set key (.table false false b.entries))) false b.path.dropLast false b.root

/-- A header may name a table that is only implied so far. -/
def startTable (b : Building) (path : List String) : Option Building := do
  let root ← b.finish
  let key ← path.getLast?
  let root ← Entries.change (fun _ parent =>
    match parent.lookup key with
    | none => some parent
    | some (.table true false _) => some parent
    | some _ => none) false path.dropLast false root
  return { root, path, entries := impliedAt root path }
where
  /-- The entries that an implied table has already. -/
  impliedAt (entries : Entries) : List String → Entries
    | [] => entries
    | key :: rest =>
      match entries.lookup key with
      | some (.table _ _ inner) => impliedAt inner rest
      | some (.tables list) => impliedAt (list.getLast?.getD []) rest
      | _ => []

def startRepeated (b : Building) (path : List String) : Option Building := do
  let root ← b.finish
  let key ← path.getLast?
  let root ← Entries.change (fun _ parent =>
    match parent.lookup key with
    | none => some (parent ++ [(key, .tables [])])
    | some (.tables _) => some parent
    | some _ => none) false path.dropLast false root
  return { root, path, repeated := true }

def take (b : Building) : Line → Option Building
  | .blank => some b
  | .header path => b.startTable path
  | .arrayHeader path => b.startRepeated path
  | .assignment path v => do
    let entries ← b.entries.assign path v
    return { b with entries }

end Building

/-- The entries of a document. A mark of byte order may come first. -/
def Document.parse? (text : String) : Option Entries := do
  let s := match text.toList with
    | '\uFEFF' :: rest => rest
    | s => s
  let ls ← lines? (s.length + 1) s
  let b ← ls.foldlM Building.take {}
  b.finish

end RuleDesk.Toml
