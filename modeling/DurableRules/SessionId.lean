namespace DurableRules

-- A 128-bit identifier, written with 26 digits to the base 32.
structure SessionId where
  value : Nat
  bound : value < 0x100000000000000000000000000000000
deriving DecidableEq

namespace SessionId

instance : Ord SessionId := ⟨compareOn value⟩
instance : Std.TransOrd SessionId := inferInstanceAs (Std.TransCmp (compareOn value))
instance : Std.LawfulEqOrd SessionId where
  compare_self := Std.ReflCmp.compare_self
  eq_of_compare {one two} equal := by
    have values : compare one.value two.value = .eq := equal
    cases one; cases two
    cases Nat.compare_eq_eq.mp values; rfl

def zero : SessionId := ⟨0,by decide⟩

-- The letters I, L, O and U are left out.
def alphabet : List Char := "0123456789ABCDEFGHJKMNPQRSTVWXYZ".toList

def letter (place : Nat) : Char := alphabet[place % 32]?.getD '0'
def digit? (c : Char) : Option Nat := alphabet.findIdx? (· == c.toUpper)

def ofNat (n : Nat) : SessionId := ⟨n % 0x100000000000000000000000000000000,Nat.mod_lt _ (by decide)⟩

def joined (places : List Nat) : Nat := places.foldl (fun n place => n * 32 + place) 0

-- Letters of either case. Bits above the 128th are dropped.
def ofText? (text : String) : Option SessionId :=
  (text.toList.mapM digit?).bind fun places =>
    if places.length = 26 then some (ofNat (joined places)) else none

def places : Nat → Nat → List Nat
  | 0, _ => []
  | count + 1, n => places count (n / 32) ++ [n % 32]

def toText (id : SessionId) : String := String.ofList ((places 26 id.value).map letter)

theorem places_length (count n : Nat) : (places count n).length = count := by
  induction count generalizing n with
  | zero => rfl
  | succ count ih => rw [places,List.length_append,ih,List.length_singleton]

theorem places_bound {count n place : Nat} (present : place ∈ places count n) : place < 32 := by
  induction count generalizing n with
  | zero => cases present
  | succ count ih =>
    rcases List.mem_append.mp present with earlier | last
    · exact ih earlier
    · rw [List.mem_singleton.mp last]
      exact Nat.mod_lt _ (by decide)

theorem joined_places (count n : Nat) : joined (places count n) = n % Nat.pow 32 count := by
  induction count generalizing n with
  | zero => exact (Nat.mod_one n).symm
  | succ count ih =>
    have step : joined (places count (n / 32) ++ [n % 32]) = joined (places count (n / 32)) * 32 + n % 32 := by
      simp [joined,List.foldl_append]
    have power : Nat.pow 32 (count + 1) = 32 * Nat.pow 32 count := Nat.mul_comm _ _
    rw [places,step,ih,power,Nat.mod_mul,Nat.mul_comm,Nat.add_comm]

theorem digit?_letter {place : Nat} (small : place < 32) : digit? (letter place) = some place := by
  have every : ∀ place < 32, digit? (letter place) = some place := by decide
  exact every place small

theorem mapM_digit?_letter {places : List Nat} (small : ∀ place ∈ places, place < 32) :
    (places.map letter).mapM digit? = some places := by
  induction places with
  | nil => rfl
  | cons place rest ih =>
    rw [List.map_cons,List.mapM_cons,digit?_letter (small place List.mem_cons_self),
      ih (fun later present => small later (List.mem_cons_of_mem _ present))]
    rfl

theorem ext_value {one two : SessionId} (same : one.value = two.value) : one = two := by
  cases one; cases two; cases same; rfl

@[simp] theorem ofText?_toText (id : SessionId) : ofText? id.toText = some id := by
  have digits : id.toText.toList.mapM digit? = some (places 26 id.value) := by
    rw [toText,String.toList_ofList]
    exact mapM_digit?_letter fun _ present => places_bound present
  have same : ofNat (joined (places 26 id.value)) = id := ext_value (by
    rw [joined_places]
    exact (Nat.mod_mod_of_dvd _ (by decide)).trans (Nat.mod_eq_of_lt id.bound))
  have length : (places 26 id.value).length = 26 := places_length 26 id.value
  rw [ofText?,digits,Option.bind_some,if_pos length,same]

end SessionId
end DurableRules
