import Scriptlet.Text.Bytes

/-!
# Symbols

Operators and punctuation marks are kept in a tree of characters
(`SymbolTree`), in which every path from the root spells the beginning of a
symbol. The longest symbol at the front of a text is found by walking down the
tree once (`SymbolTree.longestMatch?`), so `>>=` is never taken for `>>`.
-/

namespace Scriptlet

open Text

/-- A tree of symbols. A node says whether the path to it is a whole symbol, and
    has one branch for each character that can follow. -/
inductive SymbolTree
  | node (terminal : Bool) (branches : List (Char × SymbolTree))

namespace SymbolTree

/-- The tree without symbols. -/
def empty : SymbolTree := node false []

/-- Whether the path to the root is a whole symbol. -/
def terminal : SymbolTree → Bool
  | node t _ => t

/-- The branches of the root. -/
def branches : SymbolTree → List (Char × SymbolTree)
  | node _ bs => bs

/-- The branch of a character. -/
def branch? (t : SymbolTree) (c : Char) : Option SymbolTree := t.branches.lookup c

/-- Changes the branch of a character, which starts as an empty tree. -/
def updateBranch (c : Char) (f : SymbolTree → SymbolTree) :
    List (Char × SymbolTree) → List (Char × SymbolTree)
  | [] => [(c, f empty)]
  | (d, t) :: bs => if c == d then (d, f t) :: bs else (d, t) :: updateBranch c f bs

/-- Adds a symbol. -/
def insert : List Char → SymbolTree → SymbolTree
  | [], node _ bs => node true bs
  | c :: cs, node t bs => node t (updateBranch c (insert cs) bs)

/-- The tree of a list of symbols. -/
def ofList (symbols : List (List Char)) : SymbolTree :=
  symbols.foldl (fun t s => t.insert s) empty

/-- Walks down the tree along a text, of which `n` bytes have been passed, and
    gives the place after the last whole symbol. -/
def walk (t : SymbolTree) (n : Nat) (best : Option Nat) : List Char → Option Nat
  | [] => best
  | c :: cs =>
    match t.branch? c with
    | none => best
    | some u =>
      let m := n + c.utf8Size
      walk u m (if u.terminal then some m else best) cs

/-- The number of bytes of the longest symbol at the front of a text. -/
def longestMatch? (t : SymbolTree) (text : List Char) : Option Nat := t.walk 0 none text

/-- Whether a text is a symbol of the tree. -/
def contains (t : SymbolTree) (text : List Char) : Bool :=
  t.longestMatch? text == some (byteSize text)

end SymbolTree

/-- The operators and punctuation marks of the language. -/
def symbols : List String :=
  ["(", ")", "[", "]", "\x7b", "\x7d", ",", ";", ".", ":", "?", "??", "??=", "=>", "=", "==",
    "!", "!=", "<", "<=", "<<", "<<=", ">", ">=", ">>", ">>=", "+", "++", "+=", "-", "--", "-=",
    "*", "**", "*=", "/", "/=", "%", "%=", "&", "&&", "&=", "|", "||", "|=", "^", "^=", "~"]

/-- The tree of the symbols of the language. -/
def SymbolTree.standard : SymbolTree := ofList (symbols.map String.toList)

end Scriptlet
