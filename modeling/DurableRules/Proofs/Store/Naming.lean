import DurableRules.Store.Directory
import DurableRules.Store.Table
import Mathlib.Data.List.Sort

namespace DurableRules

theorem lt_of_compareLex {α β γ : Type} [Ord β] [Ord γ] [Std.ReflOrd γ] {f : α → β} {g : α → γ} {one two : α}
    (less : compareLex (compareOn f) (compareOn g) one two = .lt) (same : g one = g two) : compare (f one) (f two) = .lt := by
  have level : compareOn g one two = .eq := by
    rw [compareOn,same]
    exact Std.ReflCmp.compare_self
  change (compareOn f one two).then (compareOn g one two) = .lt at less
  rwa [level,Ordering.then_eq] at less

namespace SessionId
variable {one two : SessionId} {n m count : Nat}

theorem ofText?_some {text : String} {id : SessionId} (read : ofText? text = some id) (canonical : text = two.toText) :
    id = two := by
  rw [canonical,ofText?_toText] at read
  exact (Option.some.inj read).symm

theorem toText_injective (same : one.toText = two.toText) : one = two := ofText?_some (ofText?_toText one) same

theorem letter_lt {a b : Nat} (first : a < 32) (second : b < 32) : letter a < letter b ↔ a < b := by
  have every : ∀ a < 32, ∀ b < 32, (letter a < letter b ↔ a < b) := by decide +kernel
  exact every a first b second

theorem compare_lt {left right : String} : compare left right = .lt ↔ List.Lex (· < ·) left.toList right.toList :=
  compareOfLessAndEq_eq_lt

theorem concat_lex {left right : List Char} (same : left.length = right.length) (a b : Char) :
    List.Lex (· < ·) (left ++ [a]) (right ++ [b]) ↔ List.Lex (· < ·) left right ∨ left = right ∧ a < b := by
  induction left generalizing right with
  | nil =>
    cases List.length_eq_zero_iff.mp same.symm
    simp [List.cons_lex_cons_iff]
  | cons head rest ih =>
    obtain ⟨other,others,rfl⟩ := List.exists_cons_of_length_eq_add_one same.symm
    have later := @ih others (by simpa using same)
    simp only [List.cons_append,List.cons_lex_cons_iff,later,List.cons.injEq]
    tauto

theorem letters_eq : (places count n).map letter = (places count m).map letter → places count n = places count m := by
  intro same
  have read (k : Nat) : ((places count k).map letter).mapM digit? = some (places count k) :=
    mapM_digit?_letter fun _ present => places_bound present
  exact Option.some.inj ((read n).symm.trans ((congrArg _ same).trans (read m)))

theorem places_lex (first : n < Nat.pow 32 count) (second : m < Nat.pow 32 count) :
    List.Lex (· < ·) ((places count n).map letter) ((places count m).map letter) ↔ n < m := by
  induction count generalizing n m with
  | zero =>
    cases Nat.lt_one_iff.mp first
    cases Nat.lt_one_iff.mp second
    simp [places]
  | succ count ih =>
    have power : Nat.pow 32 (count + 1) = 32 * Nat.pow 32 count := Nat.mul_comm _ _
    have shorter (k : Nat) (small : k < Nat.pow 32 (count + 1)) : k / 32 < Nat.pow 32 count := by omega
    have heads := ih (shorter n first) (shorter m second)
    have level : (places count (n / 32)).map letter = (places count (m / 32)).map letter ↔ n / 32 = m / 32 := by
      refine ⟨fun same => ?_,congrArg fun k => (places count k).map letter⟩
      have joins := congrArg joined (letters_eq same)
      rw [joined_places,joined_places] at joins
      exact (Nat.mod_eq_of_lt (shorter n first)).symm.trans (joins.trans (Nat.mod_eq_of_lt (shorter m second)))
    have tails := letter_lt (Nat.mod_lt n (show 0 < 32 by decide)) (Nat.mod_lt m (show 0 < 32 by decide))
    simp only [places,List.map_append,List.map_cons,List.map_nil]
    rw [concat_lex (by simp [places_length]),heads,level,tails]
    omega

theorem compare_toText : compare one.toText two.toText = .lt ↔ one.value < two.value := by
  have small (id : SessionId) : id.value < Nat.pow 32 26 := Nat.lt_of_lt_of_le id.bound (by decide)
  rw [compare_lt,toText,toText,String.toList_ofList,String.toList_ofList]
  exact places_lex (small one) (small two)

end SessionId

namespace Directory
variable {id : SessionId} {ids : List SessionId}

theorem sorted_eq (ids : List SessionId) : sorted ids = ids.insertionSort fun one two => one.value ≤ two.value := by
  have place (id : SessionId) (ids : List SessionId) :
      placeId id ids = ids.orderedInsert (fun one two => one.value ≤ two.value) id := by
    induction ids with
    | nil => rfl
    | cons head rest ih => simp only [placeId,List.orderedInsert_cons,ih]
  induction ids with
  | nil => rfl
  | cons head rest ih =>
    change placeId head (sorted rest) = _
    rw [place,ih,List.insertionSort_cons]

theorem sorted_perm (ids : List SessionId) : (sorted ids).Perm ids := by
  rw [sorted_eq]
  exact List.perm_insertionSort _ _

theorem sorted_pairwise (ids : List SessionId) : (sorted ids).Pairwise fun one two => one.value ≤ two.value := by
  have total : Std.Total fun one two : SessionId => one.value ≤ two.value := ⟨fun one two => Nat.le_total _ _⟩
  have trans : IsTrans SessionId fun one two => one.value ≤ two.value := ⟨fun _ _ _ => Nat.le_trans⟩
  rw [sorted_eq]
  exact List.pairwise_insertionSort _ _

theorem sorted_strictly : (sorted ids).Pairwise (fun one two => one.value < two.value) ↔ ids.Nodup := by
  rw [← (sorted_perm ids).nodup_iff]
  constructor
  · intro order
    refine List.Pairwise.imp (fun {one two} less => ?_) order
    rintro rfl
    exact Nat.lt_irrefl _ less
  · intro apart
    refine (sorted_pairwise ids).imp₂ (fun one two atMost other => ?_) apart
    exact Nat.lt_of_le_of_ne atMost fun same => other (SessionId.ext_value same)

end Directory

end DurableRules
