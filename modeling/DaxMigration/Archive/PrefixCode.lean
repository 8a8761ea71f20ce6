/-!
# Prefix codes

Symbols by code words of bits, none of which begins another. The canonical code of a list of lengths
gives symbol `i` a word of the `i`-th length, shorter words first and equal lengths in the order of
the symbols; a length of zero means that the symbol has no word.
-/

namespace DaxMigration.Archive

inductive PrefixCode where
  | vacant
  | word (symbol : Nat)
  | fork (zero one : PrefixCode)

namespace PrefixCode

/-- The branches at a place where code words go on. -/
def branches : PrefixCode → PrefixCode × PrefixCode
  | fork zero one => (zero, one)
  | _ => (vacant, vacant)

/-- Adds a symbol at the word of `length` bits that spells `value`, its highest bit first. -/
def insert (value symbol : Nat) : Nat → PrefixCode → PrefixCode
  | 0, _ => word symbol
  | length + 1, code =>
    let (zero, one) := code.branches
    if value.testBit length then fork zero (insert value symbol length one)
    else fork (insert value symbol length zero) one

def symbolsOfLength (lengths : List Nat) (length : Nat) : List Nat :=
  lengths.zipIdx.filterMap fun (l, symbol) => if l = length then some symbol else none

/-- Gives the symbols successive words of one length, from `first` on. -/
def insertAll (length first : Nat) (symbols : List Nat) (code : PrefixCode) : PrefixCode :=
  symbols.zipIdx.foldl (fun code (symbol, i) => code.insert (first + i) symbol length) code

def maxLength : Nat := 15

/-- The canonical code of some lengths. Even where it has no words, a bit is read to find that. -/
def ofLengths (lengths : List Nat) : PrefixCode :=
  let step := fun (code, first) length =>
    let symbols := symbolsOfLength lengths length
    (insertAll length first symbols code, 2 * (first + symbols.length))
  ((List.range' 1 maxLength).foldl step (fork vacant vacant, 0)).1

/-- How much of the words of the greatest length the code takes up. -/
def extent (lengths : List Nat) : Nat :=
  (lengths.filter (0 < ·)).foldl (fun taken length => taken + 1 <<< (maxLength - length)) 0

/-- The lengths leave no word free. -/
def isComplete (lengths : List Nat) : Bool :=
  extent lengths == 1 <<< maxLength

/-- There is no word, or a single one of one bit. -/
def isSparse (lengths : List Nat) : Bool :=
  let taken := lengths.filter (0 < ·)
  taken == [] || taken == [1]

end PrefixCode

end DaxMigration.Archive
