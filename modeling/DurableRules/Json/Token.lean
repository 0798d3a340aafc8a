namespace DurableRules.Json

inductive Piece where
  | plain (c : Char)
  | short (c : Char)
  -- A backslash, u and four hexadecimal digits: one UTF-16 unit.
  | unit (code : Nat)
  -- A byte that belongs to no character.
  | stray
deriving DecidableEq

inductive Token where
  | mark (c : Char)
  | null
  | bool (truth : Bool)
  | number (literal : List Char)
  | string (pieces : List Piece)
  -- Here the text stops being a row of tokens.
  | fault
deriving DecidableEq

def backspace : Char := '\x08'
def formFeed : Char := '\x0c'

def shorts : List (Char × Char) :=
  [('"','"'),('\\','\\'),('/','/'),(backspace,'b'),(formFeed,'f'),('\n','n'),('\r','r'),('\t','t')]

def isHighSurrogate (code : Nat) : Bool := 0xD800 ≤ code && code < 0xDC00
def isLowSurrogate (code : Nat) : Bool := 0xDC00 ≤ code && code < 0xE000

-- The content of a string. Surrogates count in pairs only.
def content : List Piece → Option (List Char)
  | [] => some []
  | .plain c :: rest => (content rest).map (c :: ·)
  | .short c :: rest => (content rest).map (c :: ·)
  | .unit high :: .unit low :: rest =>
    if isHighSurrogate high then
      if isLowSurrogate low then
        (content rest).map (Char.ofNat (0x10000 + (high - 0xD800) * 0x400 + (low - 0xDC00)) :: ·)
      else none
    else if isLowSurrogate high then none
    else (content (.unit low :: rest)).map (Char.ofNat high :: ·)
  | .unit code :: rest =>
    if isHighSurrogate code || isLowSurrogate code then none
    else (content rest).map (Char.ofNat code :: ·)
  | .stray :: _ => none

def pieceOf (c : Char) : Piece :=
  if c.toNat < 0x20 then if (shorts.lookup c).isSome then .short c else .unit c.toNat
  else if c = '"' ∨ c = '\\' then .short c
  else .plain c

def pieces (text : String) : List Piece := text.toList.map pieceOf

theorem content_unit {code : Nat} (control : code < 0x20) (rest : List Piece) :
    content (.unit code :: rest) = (content rest).map (Char.ofNat code :: ·) := by
  have high : isHighSurrogate code = false := by simp [isHighSurrogate]; omega
  have low : isLowSurrogate code = false := by simp [isLowSurrogate]; omega
  cases rest with
  | nil => simp [content,high,low]
  | cons piece rest => cases piece <;> simp [content,high,low]

theorem content_pieceOf (c : Char) (rest : List Piece) :
    content (pieceOf c :: rest) = (content rest).map (c :: ·) := by
  unfold pieceOf
  split
  · next control =>
    split
    · rfl
    · rw [content_unit control,Char.ofNat_toNat]
  · split <;> rfl

theorem content_pieces (text : String) : content (pieces text) = some text.toList := by
  unfold pieces
  induction text.toList with
  | nil => rfl
  | cons c rest ih => rw [List.map_cons,content_pieceOf,ih,Option.map_some]

def hexDigit (n : Nat) : Char := Nat.digitChar (n % 16)
def hexDigits (code : Nat) : List Char :=
  [hexDigit (code / 4096),hexDigit (code / 256),hexDigit (code / 16),hexDigit code]

def Piece.spell : Piece → List Char
  | plain c => [c]
  | short c => ['\\',(shorts.lookup c).getD c]
  | unit code => '\\' :: 'u' :: hexDigits code
  | stray => []

def Token.spell : Token → List Char
  | mark c => [c]
  | null => ['n','u','l','l']
  | bool true => ['t','r','u','e']
  | bool false => ['f','a','l','s','e']
  | number literal => literal
  | string pieces => '"' :: pieces.flatMap Piece.spell ++ ['"']
  | fault => []

def spell (tokens : List Token) : List Char := tokens.flatMap Token.spell

end DurableRules.Json
