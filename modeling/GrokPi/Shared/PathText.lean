import GrokPi.Shared.Text

set_option autoImplicit false

namespace PathText

inductive Component where
  | rootDir
  | curDir
  | parentDir
  | normal (name : Text)
  deriving DecidableEq

def Component.text : Component → Text
  | .rootDir => "/".toList
  | .curDir => ".".toList
  | .parentDir => "..".toList
  | .normal name => name

def isAbsolute (path : Text) : Bool := path.head? == some '/'

def pieceComponent (piece : Text) : Option Component :=
  if piece = [] ∨ piece = ".".toList then none
  else if piece = "..".toList then some .parentDir
  else some (.normal piece)

def components (path : Text) : List Component :=
  let pieces := path.splitOn '/'
  let body := pieces.filterMap pieceComponent
  if isAbsolute path then .rootDir :: body
  else if pieces.head? = some ".".toList then .curDir :: body
  else body

def join (buffer path : Text) : Text :=
  if isAbsolute path then path
  else if buffer = [] ∨ buffer.getLast? = some '/' then buffer ++ path
  else buffer ++ '/' :: path

def collect (parts : List Component) : Text :=
  parts.foldl (fun buffer component => join buffer component.text) []

def skippable (piece : Text) : Bool := piece.isEmpty || piece == ".".toList

def dropComponents : Nat → List Text → List Text
  | 0, pieces => pieces
  | _, [] => []
  | count + 1, piece :: rest =>
      if skippable piece then dropComponents (count + 1) rest else dropComponents count rest

def asPath (pieces : List Text) : Text :=
  ['/'].intercalate ((pieces.dropWhile skippable).rdropWhile skippable)

def stripPrefix (path base : Text) : Option Text :=
  if (components base).isPrefixOf (components path) then
    let below := (base.splitOn '/').countP (!skippable ·)
    some (asPath (dropComponents below (path.splitOn '/')))
  else none

def hasParentDir (path : Text) : Bool := (components path).contains .parentDir

def normalizeStep (kept : List Component) : Component → List Component
  | .curDir => kept
  | .parentDir =>
      match kept with
      | .normal _ :: rest => rest
      | .rootDir :: rest => .rootDir :: rest
      | kept => .parentDir :: kept
  | component => component :: kept

def normalizeLexically (path : Text) : Text :=
  let kept := ((components path).foldl normalizeStep []).reverse
  if kept.isEmpty then ".".toList else collect kept

end PathText
