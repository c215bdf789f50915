import Mathlib.Data.Nat.Digits.Defs
import ReleaseAudit.Proofs.Types.Spelling
import ReleaseAudit.Types.Symbol

/-!
# Keys and the names in them

A key joins a qualified name and a number of generic parameters by a mark that
no written name has. So a key gives back the name it was made from.
-/

namespace ReleaseAudit.Types

set_option autoImplicit false

/-- Stands between name and number in the key of a generic type. -/
def arityMark : Char := '\x60'

def isPlain (text : String) : Bool :=
  !text.toList.contains arityMark

/-- The text is not itself the key of a generic type. -/
def IsName (text : String) : Prop :=
  ∀ (fullName : String) (arity : Nat), arity ≠ 0 → text ≠ typeKey fullName arity

theorem is_plain_iff {text : String} : isPlain text = true ↔ arityMark ∉ text.toList := by
  simp [isPlain]

theorem to_list_type_key (fullName : String) {arity : Nat} (generic : arity ≠ 0) :
    (typeKey fullName arity).toList =
      fullName.toList ++ arityMark :: (toString arity).toList := by
  rw [typeKey, if_neg generic, String.toList_append, String.toList_append, List.append_assoc]
  rfl

theorem is_digit_of_mem_to_string {number : Nat} {character : Char}
    (member : character ∈ (toString number).toList) : character.isDigit = true := by
  have digits : (toString number).toList = Nat.toDigits 10 number := by
    rw [Nat.toString_eq_repr, Nat.repr, String.toList_ofList]
  rw [digits] at member
  exact Nat.isDigit_of_mem_toDigits (by decide) (by decide) member

theorem arity_mark_not_mem_to_string (number : Nat) : arityMark ∉ (toString number).toList := by
  intro member
  exact absurd (is_digit_of_mem_to_string member) (by decide)

theorem is_name_of_is_plain {text : String} (plain : isPlain text = true) : IsName text := by
  intro fullName arity generic same
  apply is_plain_iff.mp plain
  rw [same, to_list_type_key fullName generic]
  exact List.mem_append_right _ List.mem_cons_self

/-- What stands before the last dot does not matter: the number in a key has no dot. -/
theorem is_name_dotted (outer : String) {name : String} (plain : isPlain name = true) :
    IsName (outer ++ "." ++ name) := by
  intro fullName arity generic same
  have lists := congrArg String.toList same
  rw [to_list_type_key fullName generic, String.toList_append, String.toList_append,
    List.append_assoc] at lists
  rcases List.append_eq_append_iff.mp lists with ⟨between, -, tails⟩ | ⟨between, -, tails⟩
  · have member : arityMark ∈ ".".toList ++ name.toList := by
      rw [tails]
      exact List.mem_append_right _ List.mem_cons_self
    rcases List.mem_append.mp member with inDot | inName
    · exact absurd inDot (by decide)
    · exact is_plain_iff.mp plain inName
  · have member : '.' ∈ arityMark :: (toString arity).toList := by
      rw [tails]
      exact List.mem_append_right _ (List.mem_append_left _ (by decide))
    rcases List.mem_cons.mp member with isMark | inNumber
    · exact absurd isMark (by decide)
    · exact absurd (is_digit_of_mem_to_string inNumber) (by decide)

theorem append_mark_inj {left right digits others : List Char} (plain : arityMark ∉ digits)
    (otherPlain : arityMark ∉ others)
    (same : left ++ arityMark :: digits = right ++ arityMark :: others) : left = right := by
  -- a part between the two marks would put one mark among the other's digits
  rcases List.append_eq_append_iff.mp same with ⟨between, outer, tails⟩ | ⟨between, outer, tails⟩
  · cases between with
    | nil => simpa using outer.symm
    | cons first rest =>
        obtain ⟨-, inDigits⟩ := List.cons.inj tails
        exact absurd (inDigits ▸ List.mem_append_right _ List.mem_cons_self) plain
  · cases between with
    | nil => simpa using outer
    | cons first rest =>
        obtain ⟨-, inOthers⟩ := List.cons.inj tails
        exact absurd (inOthers ▸ List.mem_append_right _ List.mem_cons_self) otherPlain

theorem type_key_name_inj {fullName other : String} {arity otherArity : Nat}
    (isName : IsName fullName) (otherIsName : IsName other)
    (same : typeKey fullName arity = typeKey other otherArity) : fullName = other := by
  by_cases plainType : arity = 0
  · by_cases otherPlainType : otherArity = 0
    · simpa [typeKey, plainType, otherPlainType] using same
    · rw [typeKey, if_pos plainType] at same
      exact absurd same (isName other otherArity otherPlainType)
  · by_cases otherPlainType : otherArity = 0
    · have reversed := same.symm
      rw [typeKey, if_pos otherPlainType] at reversed
      exact absurd reversed (otherIsName fullName arity plainType)
    · have lists := congrArg String.toList same
      rw [to_list_type_key fullName plainType, to_list_type_key other otherPlainType] at lists
      exact String.toList_inj.mp (append_mark_inj (arity_mark_not_mem_to_string arity)
        (arity_mark_not_mem_to_string otherArity) lists)

theorem type_key_ne_of_generic (fullName : String) {arity : Nat} (generic : arity ≠ 0) :
    fullName ≠ typeKey fullName arity := by
  intro same
  have lengths := congrArg (fun text : String => text.toList.length) same
  simp only [to_list_type_key fullName generic, List.length_append, List.length_cons] at lengths
  omega

namespace TypeRef

/-- Neither the name nor any name in the arguments has the mark. -/
inductive Plain : TypeRef → Prop
  | mk {written : TypeRef} (name : isPlain written.name = true)
      (args : ∀ arg ∈ written.args, Plain arg) : Plain written

theorem Plain.name {written : TypeRef} (plain : written.Plain) : isPlain written.name = true := by
  cases plain with
  | mk name _ => exact name

theorem Plain.args {written : TypeRef} (plain : written.Plain) :
    ∀ arg ∈ written.args, arg.Plain := by
  cases plain with
  | mk _ args => exact args

theorem is_plain_intercalate {names : List (List Char)}
    (plain : ∀ name ∈ names, arityMark ∉ name) :
    isPlain (String.intercalate "." (names.map String.ofList)) = true := by
  rw [is_plain_iff]
  induction names with
  | nil => simp
  | cons first rest ih =>
      have later := ih fun name member => plain name (List.mem_cons_of_mem _ member)
      have here := plain first List.mem_cons_self
      cases rest with
      | nil => simpa using here
      | cons second rest =>
          rw [List.map_cons, List.map_cons, String.intercalate_cons_cons, ← List.map_cons]
          simp only [String.toList_append, List.mem_append, String.toList_ofList, not_or]
          exact ⟨⟨here, by decide⟩, later⟩

theorem Canonical.plain {written : TypeRef} (canonical : Canonical written) : written.Plain := by
  induction canonical with
  | mk _ identifiers _ ih =>
      refine .mk (is_plain_intercalate ?_) ih
      intro name member isMark
      exact absurd ((identifiers name member).named arityMark isMark) (by decide)

theorem plain_of_parse {text : String} {written : TypeRef} (found : parse? text = some written) :
    written.Plain :=
  (canonical_of_parse found).plain

end TypeRef

end ReleaseAudit.Types
