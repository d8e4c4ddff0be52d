/-!
# Path texts

A path is a text whose segments are separated by slashes. Paths that differ in
doubled slashes, in `.` segments or in a slash at the end have the same key; the
segment `..` is never resolved, since it depends on the directories on the way.
-/
namespace RuleDesk.Path

/-- The segments of a path, without the empty ones. -/
def segments (path : String) : List String :=
  ((path.toList.splitOn '/').map String.ofList).filter (!·.isEmpty)

def isRooted (path : String) : Bool :=
  path.toList.head? == some '/'

def endsWithSlash (path : String) : Bool :=
  path.toList.getLast? == some '/'

/-- The segments that count when paths are compared. -/
def parts (path : String) : List String :=
  (segments path).filter (· != ".")

/-- Puts one more segment behind a path. -/
def push (path segment : String) : String :=
  if path.isEmpty || endsWithSlash path then path ++ segment else path ++ "/" ++ segment

/-- Two slashes, and no more, at the start of a path are kept. -/
def rootOf (path : String) : String :=
  match path.toList with
  | '/' :: '/' :: '/' :: _ => "/"
  | '/' :: '/' :: _ => "//"
  | _ => "/"

/-- The absolute form of a path inside a working directory: doubled slashes and
`.` segments go, a slash at the end stays. The empty path has none. -/
def absolute? (workDir path : String) : Option String :=
  if path.isEmpty then none
  else
    let base := if isRooted path then rootOf path else workDir
    let body := (parts path).foldl push base
    some (if endsWithSlash path then push body "" else body)

/-- What identifies a path among others. -/
structure Key where
  rooted : Bool
  parts : List String
deriving Repr, DecidableEq

def key (path : String) : Key :=
  ⟨isRooted path, parts path⟩

/-- The parent segment comes before every name, names go by their characters. -/
def segmentLt (a b : String) : Bool :=
  if a = ".." then b != ".." else b != ".." && decide (a < b)

def partsLe : List String → List String → Bool
  | [], _ => true
  | _ :: _, [] => false
  | a :: as, b :: bs => if a = b then partsLe as bs else segmentLt a b

/-- The order of paths, segment by segment; rooted paths come first unless the
other is empty. -/
def le (a b : String) : Bool :=
  if isRooted a = isRooted b then partsLe (parts a) (parts b)
  else if isRooted a then !(parts b).isEmpty
  else (parts a).isEmpty

end RuleDesk.Path
