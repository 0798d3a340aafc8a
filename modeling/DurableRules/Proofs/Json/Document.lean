import DurableRules.Json.Read
import DurableRules.Proofs.Json.Scanning

namespace DurableRules.Json

-- A document that can be written: no cut, every number by the grammar and
-- every string of pieces that stand for themselves.
inductive Spelled : Tree → Prop
  | null : Spelled .null
  | bool (truth : Bool) : Spelled (.bool truth)
  | number {literal : List Char} (numeric : Numeric literal) : Spelled (.number literal)
  | string {pieces : List Piece} (clean : ∀ piece ∈ pieces, piece.Clean) : Spelled (.string pieces)
  | array {items : List Tree} (each : ∀ item ∈ items, Spelled item) : Spelled (.array items)
  | object {members : List (List Piece × Tree)} (keys : ∀ member ∈ members, ∀ piece ∈ member.1, piece.Clean)
      (each : ∀ member ∈ members, Spelled member.2) : Spelled (.object members)

section Tokens

theorem spell_append (one two : List Token) : spell (one ++ two) = spell one ++ spell two := List.flatMap_append
@[simp] theorem spell_mark (c : Char) (rest : List Token) : spell (.mark c :: rest) = c :: spell rest := rfl
theorem spell_string (pieces : List Piece) (rest : List Token) :
    spell (.string pieces :: rest) = (Token.string pieces).spell ++ spell rest := rfl

theorem readFrom_single (token : Token) (clean : token.Clean) {rest : List Char} (closed : Closed rest) :
    readFrom .between (spell [token] ++ rest) = [token] ++ readFrom .between rest := by
  simpa [spell] using readFrom_token clean closed

theorem readFrom_items {items : List Tree} (each : ∀ item ∈ items, ∀ rest, Closed rest →
      readFrom .between (spell item.tokens ++ rest) = item.tokens ++ readFrom .between rest)
    {rest : List Char} (closed : Closed rest) :
    readFrom .between (spell (Tree.itemTokens items) ++ rest) = Tree.itemTokens items ++ readFrom .between rest := by
  induction items with
  | nil => rfl
  | cons item later ih =>
    have first := each item List.mem_cons_self
    have others := ih fun other present => each other (List.mem_cons_of_mem _ present)
    cases later with
    | nil => exact first rest closed
    | cons next more =>
      have comma : isMark ',' = true := rfl
      rw [Tree.itemTokens,spell_append,spell_mark,List.append_assoc,List.cons_append,first _ (closed_mark comma _),
        readFrom_mark comma,others,List.append_assoc,List.cons_append]
      exact List.cons_ne_nil next more

theorem readFrom_members {members : List (List Piece × Tree)}
    (keys : ∀ member ∈ members, ∀ piece ∈ member.1, piece.Clean)
    (each : ∀ member ∈ members, ∀ rest, Closed rest →
      readFrom .between (spell member.2.tokens ++ rest) = member.2.tokens ++ readFrom .between rest)
    {rest : List Char} (closed : Closed rest) : readFrom .between (spell (Tree.memberTokens members) ++ rest) =
      Tree.memberTokens members ++ readFrom .between rest := by
  have colon : isMark ':' = true := rfl
  have comma : isMark ',' = true := rfl
  induction members with
  | nil => rfl
  | cons member later ih =>
    obtain ⟨key,value⟩ := member
    have name := keys (key,value) List.mem_cons_self
    have first := each (key,value) List.mem_cons_self
    have others := ih (fun other present => keys other (List.mem_cons_of_mem _ present))
      (fun other present => each other (List.mem_cons_of_mem _ present))
    cases later with
    | nil =>
      rw [Tree.memberTokens,spell_string,spell_mark,List.append_assoc,readFrom_string name,List.cons_append,
        readFrom_mark colon,first rest closed]
      rfl
    | cons next more =>
      rw [Tree.memberTokens,spell_string,spell_mark,spell_append,spell_mark,List.append_assoc,readFrom_string name,
        List.cons_append,readFrom_mark colon,List.append_assoc,List.cons_append,first _ (closed_mark comma _),
        readFrom_mark comma,others]
      · simp
      · exact List.cons_ne_nil next more

theorem Spelled.readFrom {tree : Tree} (spelled : Spelled tree) : ∀ rest, Closed rest →
    readFrom .between (spell tree.tokens ++ rest) = tree.tokens ++ readFrom .between rest := by
  induction spelled with
  | null => exact fun rest closed => readFrom_single .null trivial closed
  | bool truth => exact fun rest closed => readFrom_single (.bool truth) trivial closed
  | @number literal numeric => exact fun rest closed => readFrom_single (.number literal) numeric closed
  | @string pieces clean => exact fun rest closed => readFrom_single (.string pieces) clean closed
  | array _ each =>
    intro rest closed
    have left : isMark '[' = true := rfl
    have right : isMark ']' = true := rfl
    have last : spell [.mark ']'] ++ rest = ']' :: rest := rfl
    rw [Tree.tokens,List.cons_append,spell_mark,spell_append,List.cons_append,List.append_assoc,readFrom_mark left,last,
      readFrom_items each (closed_mark right _),readFrom_mark right]
    simp
  | object keys _ each =>
    intro rest closed
    have left : isMark '{' = true := rfl
    have right : isMark '}' = true := rfl
    have last : spell [.mark '}'] ++ rest = '}' :: rest := rfl
    rw [Tree.tokens,List.cons_append,spell_mark,spell_append,List.cons_append,List.append_assoc,readFrom_mark left,last,
      readFrom_members keys each (closed_mark right _),readFrom_mark right]
    simp

theorem Spelled.scan {tree : Tree} (spelled : Spelled tree) : scan (tree.text.toList.map some) = tree.tokens := by
  have all := spelled.readFrom [] (by intro c first; cases first)
  rw [List.append_nil] at all
  rw [scan_eq,Tree.text,String.toList_ofList]
  exact all.trans (List.append_nil _)

end Tokens

section Values

theorem tokens_first (tree : Tree) : ∃ token rest, tree.tokens = token :: rest ∧ token ≠ .mark ']' := by
  cases tree <;> exact ⟨_,_,rfl,by simp⟩

theorem items_value {items : List Tree} (some : items ≠ []) (each : ∀ item ∈ items, ∀ fuel rest,
      item.tokens.length ≤ fuel → Tree.value fuel (item.tokens ++ rest) = (item,rest))
    {fuel : Nat} (enough : (Tree.itemTokens items).length < fuel) (rest : List Token) :
    Tree.items fuel (Tree.itemTokens items ++ .mark ']' :: rest) = (items,rest) := by
  induction items generalizing fuel with
  | nil => exact absurd rfl some
  | cons item later ih =>
    obtain ⟨fuel,rfl⟩ := Nat.exists_eq_add_one_of_ne_zero (Nat.ne_of_gt (Nat.zero_lt_of_lt enough))
    have first := each item List.mem_cons_self fuel
    cases later with
    | nil =>
      have one : Tree.itemTokens [item] = item.tokens := rfl
      rw [one] at enough ⊢
      rw [Tree.items,first _ (Nat.le_of_lt_succ enough)]
      rfl
    | cons next more =>
      have tail : next :: more ≠ [] := List.cons_ne_nil next more
      have split : Tree.itemTokens (item :: next :: more) =
        item.tokens ++ .mark ',' :: Tree.itemTokens (next :: more) := Tree.itemTokens.eq_3 item _ tail
      rw [split] at enough ⊢
      rw [List.length_append,List.length_cons] at enough
      have others := ih tail (fun other present => each other (List.mem_cons_of_mem _ present))
        (show (Tree.itemTokens (next :: more)).length < fuel by omega)
      rw [List.append_assoc,List.cons_append,Tree.items,first _ (by omega)]
      simp only [others]

theorem members_value {members : List (List Piece × Tree)} (some : members ≠ []) (each : ∀ member ∈ members,
      ∀ fuel rest, member.2.tokens.length ≤ fuel → Tree.value fuel (member.2.tokens ++ rest) = (member.2,rest))
    {fuel : Nat} (enough : (Tree.memberTokens members).length < fuel) (rest : List Token) :
    Tree.members fuel (Tree.memberTokens members ++ .mark '}' :: rest) = (members,rest) := by
  induction members generalizing fuel with
  | nil => exact absurd rfl some
  | cons member later ih =>
    obtain ⟨key,value⟩ := member
    obtain ⟨fuel,rfl⟩ := Nat.exists_eq_add_one_of_ne_zero (Nat.ne_of_gt (Nat.zero_lt_of_lt enough))
    have first := each (key,value) List.mem_cons_self fuel
    cases later with
    | nil =>
      have one : Tree.memberTokens [(key,value)] = .string key :: .mark ':' :: value.tokens := rfl
      rw [one] at enough ⊢
      rw [List.length_cons,List.length_cons] at enough
      rw [List.cons_append,List.cons_append,Tree.members,first _ (by dsimp only; omega)]
      rfl
    | cons next more =>
      have tail : next :: more ≠ [] := List.cons_ne_nil next more
      have split : Tree.memberTokens ((key,value) :: next :: more) =
        .string key :: .mark ':' :: (value.tokens ++ .mark ',' :: Tree.memberTokens (next :: more)) :=
        Tree.memberTokens.eq_3 key value _ tail
      rw [split] at enough ⊢
      rw [List.length_cons,List.length_cons,List.length_append,List.length_cons] at enough
      have others := ih tail (fun other present => each other (List.mem_cons_of_mem _ present))
        (show (Tree.memberTokens (next :: more)).length < fuel by omega)
      rw [List.cons_append,List.cons_append,List.append_assoc,List.cons_append,Tree.members,
        first _ (by dsimp only; omega)]
      simp only [others]

theorem Spelled.value {tree : Tree} (spelled : Spelled tree) : ∀ fuel rest, tree.tokens.length ≤ fuel →
    Tree.value fuel (tree.tokens ++ rest) = (tree,rest) := by
  induction spelled with
  | null => intro fuel rest _; simp [Tree.tokens,Tree.value]
  | bool truth => intro fuel rest _; simp [Tree.tokens,Tree.value]
  | number _ => intro fuel rest _; simp [Tree.tokens,Tree.value]
  | string _ => intro fuel rest _; simp [Tree.tokens,Tree.value]
  | @array items _ each =>
    intro fuel rest enough
    rw [Tree.tokens,List.length_append,List.length_cons,List.length_singleton] at enough
    obtain ⟨fuel,rfl⟩ := Nat.exists_eq_add_one_of_ne_zero (show fuel ≠ 0 by omega)
    rw [Tree.tokens,List.append_assoc,List.cons_append]
    cases items with
    | nil => simp [Tree.itemTokens,Tree.value]
    | cons item later =>
      have inside := items_value (List.cons_ne_nil item later) each
        (show (Tree.itemTokens (item :: later)).length < fuel by omega) rest
      obtain ⟨token,more,first,apart⟩ := tokens_first item
      have head : ∃ more, Tree.itemTokens (item :: later) = token :: more := by
        cases later <;> simp [Tree.itemTokens,first]
      obtain ⟨more,spelling⟩ := head
      rw [spelling] at inside ⊢
      rw [List.singleton_append,Tree.value]
      · rw [inside]
      · intro others same
        exact apart (List.cons.inj same).1
  | @object members _ _ each =>
    intro fuel rest enough
    rw [Tree.tokens,List.length_append,List.length_cons,List.length_singleton] at enough
    obtain ⟨fuel,rfl⟩ := Nat.exists_eq_add_one_of_ne_zero (show fuel ≠ 0 by omega)
    rw [Tree.tokens,List.append_assoc,List.cons_append]
    cases members with
    | nil => simp [Tree.memberTokens,Tree.value]
    | cons member later =>
      have inside := members_value (List.cons_ne_nil member later) each
        (show (Tree.memberTokens (member :: later)).length < fuel by omega) rest
      have head : ∃ more, Tree.memberTokens (member :: later) = .string member.1 :: more := by
        cases later <;> simp [Tree.memberTokens]
      obtain ⟨more,spelling⟩ := head
      rw [spelling] at inside ⊢
      rw [List.singleton_append,Tree.value]
      · rw [inside]
      · intro others same
        cases same

end Values

theorem Spelled.ofBytes {tree : Tree} (spelled : Spelled tree) : Tree.ofBytes tree.text.toUTF8 = (tree,true) := by
  have whole := spelled.value (2 * tree.tokens.length) [] (by omega)
  rw [List.append_nil] at whole
  rw [Tree.ofBytes,signsOf_toUTF8,spelled.scan,Tree.ofTokens,whole]
  rfl

theorem Spelled.decode {tree : Tree} (spelled : Spelled tree) {α : Type} (reader : Reader α) :
    decode reader tree.text.toUTF8 = reader tree := by
  rw [Json.decode,spelled.ofBytes]
  simp only [if_true]
  cases reader tree <;> rfl

end DurableRules.Json
