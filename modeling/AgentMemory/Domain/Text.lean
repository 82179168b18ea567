import Mathlib.Algebra.GroupWithZero.Nat
import Mathlib.Data.List.DropRight

/-!
# Go strings

The functions of the Go packages `strings` and `unicode` that the services use, on texts
as lists of code points. Contents reach the services through JSON, which leaves only valid
UTF-8, so a text and its code points determine each other; `len` counts bytes, as Go's
does. `unicode.ToLower` is a table of the runtime: wherever a function lowers text it takes
that map as the argument `lower`.
-/

namespace AgentMemory

/-- `unicode.IsSpace`. -/
def isSpace (c : Char) : Bool :=
  let n := c.toNat
  (9 ≤ n && n ≤ 13) || n == 0x20 || n == 0x85 || n == 0xA0 || n == 0x1680 ||
    (0x2000 ≤ n && n ≤ 0x200A) || n == 0x2028 || n == 0x2029 || n == 0x202F ||
    n == 0x205F || n == 0x3000

/-- `strings.Fields`: the maximal runs without white space. -/
def fields (text : List Char) : List (List Char) :=
  (text.splitOnP isSpace).filter (· ≠ [])

/-- `strings.Trim` with a cutset. -/
def trim (text cutset : List Char) : List Char :=
  (text.dropWhile (· ∈ cutset)).rdropWhile (· ∈ cutset)

/-- `strings.TrimSpace`. -/
def trimSpace (text : List Char) : List Char :=
  (text.dropWhile isSpace).rdropWhile isSpace

/-- `strings.ToLower`, which maps `unicode.ToLower` over the runes. -/
def toLower (lower : Char → Char) (text : List Char) : List Char := text.map lower

/-- `len` of a string: its bytes in UTF-8. -/
def len (text : List Char) : Nat := (text.map Char.utf8Size).sum

/-- `strings.Contains`. -/
def contains (text sub : List Char) : Bool := text.tails.any sub.isPrefixOf

/-- `strings.Join`. -/
def join (parts : List (List Char)) (sep : List Char) : List Char :=
  (parts.intersperse sep).flatten

/-- The number a run of decimal digits denotes. -/
def digits : List Char → Option Nat
  | [] => none
  | text => if text.all Char.isDigit then
      some (text.foldl (fun n c => 10 * n + (c.toNat - '0'.toNat)) 0) else none

/-- `strconv.Atoi` on the numbers an `int` holds; `none` is its error. -/
def atoi : List Char → Option Int
  | '-' :: text => (digits text).map fun n => -(n : Int)
  | '+' :: text => (digits text).map Int.ofNat
  | text => (digits text).map Int.ofNat

/-- The cutset the tokenisers trim: `" .,;:!?()[]{}\"'"`. -/
def punctuation : List Char :=
  [' ', '.', ',', ';', ':', '!', '?', '(', ')', '[', ']', '{', '}', '"', '\'']

end AgentMemory
