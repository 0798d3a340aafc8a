import DurableRules.Json.Token

namespace DurableRules.Json

inductive Stage where
  | minus
  | zero
  | whole
  | point
  | fraction
  | mark
  | sign
  | power
deriving DecidableEq

def Stage.complete : Stage → Bool
  | zero | whole | fraction | power => true
  | _ => false

def Stage.next? (stage : Stage) (c : Char) : Option Stage :=
  match stage with
  | minus => if c = '0' then some zero else if c.isDigit then some whole else none
  | zero => if c = '.' then some point else if c = 'e' ∨ c = 'E' then some mark else none
  | whole =>
    if c.isDigit then some whole
    else if c = '.' then some point
    else if c = 'e' ∨ c = 'E' then some mark
    else none
  | point => if c.isDigit then some fraction else none
  | fraction => if c.isDigit then some fraction else if c = 'e' ∨ c = 'E' then some mark else none
  | mark => if c = '+' ∨ c = '-' then some sign else if c.isDigit then some power else none
  | sign | power => if c.isDigit then some power else none

-- Text unfinished so far stands in reverse.
inductive State where
  | between
  | inWord (done : List Char)
  | inNumber (stage : Stage) (done : List Char)
  | inString (done : List Piece)
  | afterSlash (done : List Piece)
  | inCode (left code : Nat) (done : List Piece)
  | halted
deriving DecidableEq

def isSpace (c : Char) : Bool := c == ' ' || c == '\n' || c == '\t' || c == '\r'
def isMark (c : Char) : Bool := ['{','}','[',']',':',','].contains c

def hexValue? (c : Char) : Option Nat :=
  if c.isDigit then some (c.toNat - '0'.toNat)
  else if 'a' ≤ c ∧ c ≤ 'f' then some (c.toNat - 'a'.toNat + 10)
  else if 'A' ≤ c ∧ c ≤ 'F' then some (c.toNat - 'A'.toNat + 10)
  else none

def word? (letters : List Char) : Option Token :=
  [Token.null,.bool true,.bool false].find? (fun token => token.spell == letters)

def stop : List Token × State := ([.fault],.halted)

def start (c : Char) : List Token × State :=
  if isSpace c then ([],.between)
  else if isMark c then ([.mark c],.between)
  else if c = '"' then ([],.inString [])
  else if c = '-' then ([],.inNumber .minus [c])
  else match Stage.minus.next? c with
    | some stage => ([],.inNumber stage [c])
    | none => if c.isLower then ([],.inWord [c]) else stop

def follow (token : Option Token) (c : Char) : List Token × State :=
  match token with
  | none => stop
  | some token =>
    let (tokens,next) := start c
    (token :: tokens,next)

def finished (stage : Stage) (done : List Char) : Option Token :=
  if stage.complete then some (.number done.reverse) else none

def step (state : State) (sign : Option Char) : List Token × State :=
  match state, sign with
  | .halted, _ => ([],.halted)
  | .inString done, none => ([],.inString (.stray :: done))
  | _, none => stop
  | .between, some c => start c
  | .inWord done, some c =>
    if c.isLower then ([],.inWord (c :: done)) else follow (word? done.reverse) c
  | .inNumber stage done, some c =>
    match stage.next? c with
    | some stage => ([],.inNumber stage (c :: done))
    | none => follow (finished stage done) c
  | .inString done, some c =>
    if c = '"' then ([.string done.reverse],.between)
    else if c = '\\' then ([],.afterSlash done)
    else if c.toNat < 0x20 then stop
    else ([],.inString (.plain c :: done))
  | .afterSlash done, some c =>
    if c = 'u' then ([],.inCode 4 0 done)
    else match shorts.find? (fun row => row.2 == c) with
      | some (meaning,_) => ([],.inString (.short meaning :: done))
      | none => stop
  | .inCode left code done, some c =>
    match hexValue? c with
    | none => stop
    | some digit =>
      let code := code * 16 + digit
      if left ≤ 1 then ([],.inString (.unit code :: done)) else ([],.inCode (left - 1) code done)

def finish : State → List Token
  | .between | .halted => []
  | .inWord done => [(word? done.reverse).getD .fault]
  | .inNumber stage done => [(finished stage done).getD .fault]
  | _ => [.fault]

-- The tokens found so far stand in reverse.
def feed (found : List Token × State) (sign : Option Char) : List Token × State :=
  let (tokens,next) := step found.2 sign
  (tokens.reverse ++ found.1,next)

def scan (signs : List (Option Char)) : List Token :=
  let (tokens,last) := signs.foldl feed ([],.between)
  tokens.reverse ++ finish last

-- The characters of bytes that are UTF-8, piecewise where they are not.
def firstSign (bytes : List UInt8) (width : Nat) : Option Char :=
  match ByteArray.utf8Decode? ⟨(bytes.take width).toArray⟩ with
  | some chars => if chars.size = 1 then chars[0]? else none
  | none => none

def piecewise : List UInt8 → List (Option Char)
  | [] => []
  | byte :: rest =>
    match [1,2,3,4].findSome? (fun width => (firstSign (byte :: rest) width).map (width,·)) with
    | some (width,c) => some c :: piecewise (rest.drop (width - 1))
    | none => none :: piecewise rest
termination_by bytes => bytes.length
decreasing_by
  · simp only [List.length_cons,List.length_drop]; omega
  · simp

def signsOf (bytes : ByteArray) : List (Option Char) :=
  match String.fromUTF8? bytes with
  | some text => text.toList.map some
  | none => piecewise bytes.toList

theorem signsOf_toUTF8 (text : String) : signsOf text.toUTF8 = text.toList.map some := by
  unfold signsOf String.fromUTF8?
  split
  · next found =>
    split at found
    · cases found; rfl
    · cases found
  · next missing =>
    split at missing
    · cases missing
    · next invalid => exact absurd text.isValidUTF8 invalid

end DurableRules.Json
