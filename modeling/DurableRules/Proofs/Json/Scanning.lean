import DurableRules.Json.Scan

namespace DurableRules.Json

def tokensFrom : State → List (Option Char) → List Token
  | state, [] => finish state
  | state, sign :: rest => (step state sign).1 ++ tokensFrom (step state sign).2 rest

theorem foldl_feed (signs : List (Option Char)) (found : List Token) (state : State) :
    (signs.foldl feed (found,state)).1.reverse ++ finish (signs.foldl feed (found,state)).2 =
      found.reverse ++ tokensFrom state signs := by
  induction signs generalizing found state with
  | nil => rfl
  | cons sign rest ih =>
    rw [List.foldl_cons,tokensFrom]
    simp only [feed]
    rw [ih,List.reverse_append,List.reverse_reverse,List.append_assoc]

theorem scan_eq (signs : List (Option Char)) : scan signs = tokensFrom .between signs := foldl_feed signs [] .between

def readFrom (state : State) (text : List Char) : List Token := tokensFrom state (text.map some)

theorem readFrom_cons (state : State) (c : Char) (rest : List Char) :
    readFrom state (c :: rest) = (step state (some c)).1 ++ readFrom (step state (some c)).2 rest := rfl

-- The text ends here or goes on with a mark.
def Closed (text : List Char) : Prop := ∀ c, text.head? = some c → isMark c = true

theorem closed_mark {c : Char} (mark : isMark c = true) (rest : List Char) : Closed (c :: rest) := by
  intro d first
  cases first
  exact mark

theorem mem_marks {c : Char} (mark : isMark c = true) : c = '{' ∨ c = '}' ∨ c = '[' ∨ c = ']' ∨ c = ':' ∨ c = ',' := by
  simpa [isMark] using mark

theorem start_mark {c : Char} (mark : isMark c = true) : start c = ([.mark c],.between) := by
  rcases mem_marks mark with rfl | rfl | rfl | rfl | rfl | rfl <;> rfl

theorem readFrom_mark {c : Char} (mark : isMark c = true) (rest : List Char) :
    readFrom .between (c :: rest) = .mark c :: readFrom .between rest := by
  rw [readFrom_cons,step,start_mark mark]
  rfl

theorem follow_closed {token : Token} {state : State} {rest : List Char} (closed : Closed rest)
    (ends : finish state = [token])
    (follows : ∀ c, isMark c = true → step state (some c) = follow (some token) c) :
    readFrom state rest = token :: readFrom .between rest := by
  cases rest with
  | nil => exact ends
  | cons c rest =>
    have mark := closed c rfl
    rw [readFrom_cons,follows c mark,readFrom_mark mark,follow,start_mark mark]
    rfl

section Pieces

def Piece.Clean : Piece → Prop
  | plain c => 0x20 ≤ c.toNat ∧ c ≠ '"' ∧ c ≠ '\\'
  | short c => c ∈ shorts.map Prod.fst
  | unit code => code < 0x10000
  | stray => False

theorem hexValue?_hexDigit (n : Nat) : hexValue? (hexDigit n) = some (n % 16) := by
  have all : ∀ digit < 16, hexValue? (Nat.digitChar digit) = some digit := by decide
  exact all _ (Nat.mod_lt _ (by decide))

theorem readFrom_unit (done : List Piece) {code : Nat} (small : code < 0x10000) (rest : List Char) :
    readFrom (.inString done) ('\\' :: 'u' :: hexDigits code ++ rest) = readFrom (.inString (.unit code :: done)) rest := by
  have value : (((code / 4096 % 16) * 16 + code / 256 % 16) * 16 + code / 16 % 16) * 16 + code % 16 = code := by omega
  simp [readFrom_cons,hexDigits,step,hexValue?_hexDigit,value]

theorem readFrom_short (done : List Piece) {c : Char} (known : c ∈ shorts.map Prod.fst) (rest : List Char) :
    readFrom (.inString done) ((Piece.short c).spell ++ rest) = readFrom (.inString (.short c :: done)) rest := by
  have each : c = '"' ∨ c = '\\' ∨ c = '/' ∨ c = backspace ∨ c = formFeed ∨ c = '\n' ∨ c = '\r' ∨ c = '\t' := by
    simpa [shorts] using known
  rcases each with rfl | rfl | rfl | rfl | rfl | rfl | rfl | rfl <;> rfl

theorem readFrom_piece (done : List Piece) {piece : Piece} (clean : piece.Clean) (rest : List Char) :
    readFrom (.inString done) (piece.spell ++ rest) = readFrom (.inString (piece :: done)) rest := by
  cases piece with
  | plain c =>
    obtain ⟨printable,quote,slash⟩ := clean
    have control : ¬ c.toNat < 32 := Nat.not_lt.mpr printable
    simp [Piece.spell,readFrom_cons,step,quote,slash,control]
  | short c => exact readFrom_short done clean rest
  | unit code => exact readFrom_unit done clean rest
  | stray => cases clean

theorem readFrom_pieces {pieces : List Piece} (clean : ∀ piece ∈ pieces, piece.Clean) (done : List Piece)
    (rest : List Char) : readFrom (.inString done) (pieces.flatMap Piece.spell ++ '"' :: rest) =
      .string (done.reverse ++ pieces) :: readFrom .between rest := by
  induction pieces generalizing done with
  | nil =>
    rw [List.append_nil]
    rfl
  | cons piece later ih =>
    have others := ih fun other present => clean other (List.mem_cons_of_mem _ present)
    rw [List.flatMap_cons,List.append_assoc,readFrom_piece done (clean piece List.mem_cons_self),others]
    simp

theorem pieceOf_clean (c : Char) : (pieceOf c).Clean := by
  unfold pieceOf
  split
  · next control =>
    split
    · next known =>
      obtain ⟨letter,found⟩ := Option.isSome_iff_exists.mp known
      obtain ⟨before,_,split,_⟩ := List.lookup_eq_some_iff.mp found
      change c ∈ shorts.map Prod.fst
      rw [split]
      simp
    · change c.toNat < 0x10000
      omega
  · next printable =>
    split
    · next special =>
      rcases special with rfl | rfl <;> simp [Piece.Clean,shorts]
    · next ordinary =>
      obtain ⟨quote,slash⟩ := not_or.mp ordinary
      exact ⟨Nat.le_of_not_lt printable,quote,slash⟩

theorem pieces_clean (text : String) : ∀ piece ∈ pieces text, piece.Clean := by
  intro piece present
  obtain ⟨c,_,rfl⟩ := List.mem_map.mp present
  exact pieceOf_clean c

end Pieces

section Numbers

def Stage.first? (c : Char) : Option Stage := if c = '-' then some .minus else Stage.minus.next? c

def Numeric : List Char → Prop
  | [] => False
  | c :: rest => ∃ stage last, Stage.first? c = some stage ∧ rest.foldlM Stage.next? stage = some last ∧ last.complete = true

theorem next?_mark {c : Char} (mark : isMark c = true) (stage : Stage) : stage.next? c = none := by
  rcases mem_marks mark with rfl | rfl | rfl | rfl | rfl | rfl <;> cases stage <;> rfl

theorem readFrom_stages {stage last : Stage} {text rest : List Char} (done : List Char)
    (stages : text.foldlM Stage.next? stage = some last) (complete : last.complete = true) (closed : Closed rest) :
    readFrom (.inNumber stage done) (text ++ rest) = .number (done.reverse ++ text) :: readFrom .between rest := by
  induction text generalizing stage done with
  | nil =>
    cases stages
    rw [List.nil_append,List.append_nil]
    have token : finished last done = some (.number done.reverse) := if_pos complete
    apply follow_closed closed
    · simp [finish,token]
    · intro c mark
      simp [step,next?_mark mark,token]
  | cons c later ih =>
    rw [List.foldlM_cons,Option.bind_eq_bind,Option.bind_eq_some_iff] at stages
    obtain ⟨next,moves,others⟩ := stages
    rw [List.cons_append,readFrom_cons]
    simp only [step,moves,List.nil_append]
    rw [ih (c :: done) others]
    simp

theorem start_number {c : Char} {stage : Stage} (first : Stage.first? c = some stage) :
    start c = ([],.inNumber stage [c]) := by
  by_cases minus : c = '-'
  · subst minus
    cases first
    rfl
  · rw [Stage.first?,if_neg minus] at first
    have digit : c.isDigit = true := by
      by_cases zero : c = '0'
      · subst zero
        rfl
      · simp only [Stage.next?,zero,if_false,Option.ite_none_right_eq_some] at first
        exact first.1
    obtain ⟨low,high⟩ := Char.isDigit_iff_toNat.mp digit
    have space : isSpace c = false := by
      simp only [isSpace,Bool.or_eq_false_iff,beq_eq_false_iff_ne]
      refine ⟨⟨⟨?_,?_⟩,?_⟩,?_⟩ <;> intro same <;> subst same <;> cases digit
    have mark : isMark c = false := by
      apply Bool.eq_false_iff.mpr
      intro held
      rcases mem_marks held with rfl | rfl | rfl | rfl | rfl | rfl <;> cases digit
    have quote : c ≠ '"' := by
      intro same
      subst same
      cases digit
    simp [start,space,mark,quote,minus,first]

theorem readFrom_number {literal rest : List Char} (numeric : Numeric literal) (closed : Closed rest) :
    readFrom .between (literal ++ rest) = .number literal :: readFrom .between rest := by
  cases literal with
  | nil => cases numeric
  | cons c later =>
    obtain ⟨stage,last,first,stages,complete⟩ := numeric
    rw [List.cons_append,readFrom_cons,step,start_number first]
    exact readFrom_stages [c] stages complete closed

end Numbers

theorem readFrom_word {letters rest : List Char} {token : Token} (known : word? letters.reverse = some token)
    (closed : Closed rest) : readFrom (.inWord letters) rest = token :: readFrom .between rest := by
  apply follow_closed closed
  · simp [finish,known]
  · intro c mark
    have upper : c.isLower = false := by
      rcases mem_marks mark with rfl | rfl | rfl | rfl | rfl | rfl <;> rfl
    simp [step,upper,known]

theorem readFrom_string {pieces : List Piece} (clean : ∀ piece ∈ pieces, piece.Clean) (rest : List Char) :
    readFrom .between ((Token.string pieces).spell ++ rest) = .string pieces :: readFrom .between rest := by
  have inside := readFrom_pieces clean [] rest
  simpa [Token.spell,readFrom_cons,step,start,isSpace,isMark] using inside

def Token.Clean : Token → Prop
  | mark c => isMark c = true
  | null => True
  | bool _ => True
  | number literal => Numeric literal
  | string pieces => ∀ piece ∈ pieces, piece.Clean
  | fault => False

theorem readFrom_token {token : Token} {rest : List Char} (clean : token.Clean) (closed : Closed rest) :
    readFrom .between (token.spell ++ rest) = token :: readFrom .between rest := by
  cases token with
  | mark c => exact readFrom_mark clean rest
  | null => exact @readFrom_word ['l','l','u','n'] rest .null rfl closed
  | bool truth =>
    cases truth with
    | true => exact @readFrom_word ['e','u','r','t'] rest (.bool true) rfl closed
    | false => exact @readFrom_word ['e','s','l','a','f'] rest (.bool false) rfl closed
  | number literal => exact readFrom_number clean closed
  | string pieces => exact readFrom_string clean rest
  | fault => cases clean

end DurableRules.Json
