import DurableRules.Json.Scan

namespace DurableRules.Json

-- A document as far as it is one. A cut stands where the rest of the text
-- fits no document, so a reader that goes in order meets it in its place.
inductive Tree where
  | null
  | bool (truth : Bool)
  | number (literal : List Char)
  | string (pieces : List Piece)
  | array (items : List Tree)
  | object (members : List (List Piece × Tree))
  | cut

namespace Tree

mutual
def tokens : Tree → List Token
  | null => [.null]
  | bool truth => [.bool truth]
  | number literal => [.number literal]
  | string pieces => [.string pieces]
  | array items => .mark '[' :: itemTokens items ++ [.mark ']']
  | object members => .mark '{' :: memberTokens members ++ [.mark '}']
  | cut => [.fault]
def itemTokens : List Tree → List Token
  | [] => []
  | [item] => item.tokens
  | item :: rest => item.tokens ++ .mark ',' :: itemTokens rest
def memberTokens : List (List Piece × Tree) → List Token
  | [] => []
  | [(key,value)] => .string key :: .mark ':' :: value.tokens
  | (key,value) :: rest => .string key :: .mark ':' :: (value.tokens ++ .mark ',' :: memberTokens rest)
end

def text (tree : Tree) : String := String.ofList (spell tree.tokens)

def margin (depth : Nat) : List Char := '\n' :: List.replicate (2 * depth) ' '

mutual
def lines (depth : Nat) : Tree → List Char
  | array [] => ['[',']']
  | array (item :: rest) => '[' :: itemLines (depth + 1) (item :: rest) ++ margin depth ++ [']']
  | object [] => ['{','}']
  | object (member :: rest) => '{' :: memberLines (depth + 1) (member :: rest) ++ margin depth ++ ['}']
  | null => Token.null.spell
  | bool truth => (Token.bool truth).spell
  | number literal => literal
  | string pieces => (Token.string pieces).spell
  | cut => []
def itemLines (depth : Nat) : List Tree → List Char
  | [] => []
  | [item] => margin depth ++ item.lines depth
  | item :: rest => margin depth ++ item.lines depth ++ ',' :: itemLines depth rest
def memberLines (depth : Nat) : List (List Piece × Tree) → List Char
  | [] => []
  | [(key,value)] => margin depth ++ (Token.string key).spell ++ ':' :: ' ' :: value.lines depth
  | (key,value) :: rest =>
    margin depth ++ (Token.string key).spell ++ ':' :: ' ' :: value.lines depth ++ ',' :: memberLines depth rest
end

mutual
def whole : Tree → Bool
  | array items => wholeItems items
  | object members => wholeMembers members
  | cut => false
  | _ => true
def wholeItems : List Tree → Bool
  | [] => true
  | item :: rest => item.whole && wholeItems rest
def wholeMembers : List (List Piece × Tree) → Bool
  | [] => true
  | (_,value) :: rest => value.whole && wholeMembers rest
end

-- Every value takes at least one token, so as much fuel as tokens suffices.
-- After a cut nothing is left to read.
mutual
def value : Nat → List Token → Tree × List Token
  | _, .null :: rest => (null,rest)
  | _, .bool truth :: rest => (bool truth,rest)
  | _, .number literal :: rest => (number literal,rest)
  | _, .string pieces :: rest => (string pieces,rest)
  | fuel + 1, .mark '[' :: rest =>
    match rest with
    | .mark ']' :: rest => (array [],rest)
    | _ =>
      let (items,rest) := items fuel rest
      (array items,rest)
  | fuel + 1, .mark '{' :: rest =>
    match rest with
    | .mark '}' :: rest => (object [],rest)
    | _ =>
      let (members,rest) := members fuel rest
      (object members,rest)
  | _, _ => (cut,[])
def items : Nat → List Token → List Tree × List Token
  | 0, _ => ([cut],[])
  | fuel + 1, tokens =>
    match value fuel tokens with
    | (item,.mark ']' :: rest) => ([item],rest)
    | (item,.mark ',' :: rest) =>
      let (later,rest) := items fuel rest
      (item :: later,rest)
    | (item,_) => ([item,cut],[])
def members : Nat → List Token → List (List Piece × Tree) × List Token
  | fuel + 1, .string key :: .mark ':' :: rest =>
    match value fuel rest with
    | (value,.mark '}' :: rest) => ([(key,value)],rest)
    | (value,.mark ',' :: rest) =>
      let (later,rest) := members fuel rest
      ((key,value) :: later,rest)
    | (value,_) => ([(key,value),([],cut)],[])
  | _, _ => ([([],cut)],[])
end

def ofTokens (tokens : List Token) : Tree × Bool :=
  let (tree,rest) := value (2 * tokens.length) tokens
  (tree,rest.isEmpty)

def ofBytes (bytes : ByteArray) : Tree × Bool := ofTokens (scan (signsOf bytes))

end Tree
end DurableRules.Json
