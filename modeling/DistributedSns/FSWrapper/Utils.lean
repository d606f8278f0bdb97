import DistributedSns.Basic

/-!
# Path and string utilities (`filesystem_utils.cpp`)
-/

namespace DistributedSns.FSWrapper

/-! ## `std::string` -/

/-- The first position, counted from `pos`, at which `delim` occurs in the string. -/
def findFrom (delim : Str) : Str → Nat → Option Nat
  | [], pos => if delim = [] then some pos else none
  | c :: s, pos => if delim.isPrefixOf (c :: s) then some pos else findFrom delim s (pos + 1)

/-- `str.find(delim, pos)`; `none` is `npos`. -/
def find (s delim : Str) (pos : Nat) : Option Nat :=
  if pos ≤ s.length then findFrom delim (s.drop pos) pos else none

/-- `str.substr(pos)`, which throws `out_of_range` past the end of the string. -/
def substr (s : Str) (pos : Nat) : Except Fault Str :=
  if pos ≤ s.length then .ok (s.drop pos) else .error .outOfRange

/-- `str.substr(pos, count)`. -/
def substrCount (s : Str) (pos count : Nat) : Except Fault Str :=
  if pos ≤ s.length then .ok ((s.drop pos).take count) else .error .outOfRange

/-! ## `splitString` -/

/-- `tokens.push_back(token)` for a token which is not empty. -/
def pushToken (tokens : List Str) (token : Str) : List Str :=
  if token ≠ [] then tokens ++ [token] else tokens

/-- The scan of `splitString`. The position moves one character past a match, whatever the delimiter's
length. -/
def splitLoop (s delim : Str) : Nat → Nat → Option Nat → List Str → Except Fault (List Str)
  | 0, _, _, _ => .error .outOfFuel
  | fuel + 1, startIdx, some endIdx, tokens => do
    let token ← substrCount s startIdx (endIdx - startIdx)
    splitLoop s delim fuel (endIdx + 1) (find s delim (endIdx + 1)) (pushToken tokens token)
  | _ + 1, startIdx, none, tokens => do
    let token ← substr s startIdx
    return pushToken tokens token

def splitString (s delim : Str) : Except Fault (List Str) :=
  splitLoop s delim (s.length + 2) 0 (find s delim 0) []

def splitFilepath (filepath : Str) : Except Fault (List Str) :=
  splitString filepath ['/']

/-- The parent folder with a slash at the end. -/
def getParentFolderPath (filepath : Str) : Except Fault Str := do
  let tokens ← splitFilepath filepath
  return if tokens.length > 1 then tokens.dropLast.flatMap (· ++ ['/']) else []

end DistributedSns.FSWrapper
