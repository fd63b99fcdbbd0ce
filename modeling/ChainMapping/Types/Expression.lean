import ChainMapping.Types.Error
import ChainMapping.Text.Blank
import ChainMapping.Text.Search

/-!
# Type expressions

A type is written as a name, as a container name with its arguments, or as a component type with
`[]` after it:

    E ::= N | C | C '<' E '>' | M '<' E ',' E '>' | E '[]'

Blanks may stand around every part.  A container written without arguments is raw.  A name that is
neither a container nor a scalar is looked up by the caller, who says what kind of type it is.
-/

namespace ChainMapping
namespace TypeRef

/-- The parts of a text between the commas outside of angle brackets. -/
def splitArguments : (depth : Nat) → List Char → List (List Char)
  | _, [] => [[]]
  | depth, c :: rest =>
    if c = ',' && depth = 0 then [] :: splitArguments 0 rest
    else
      let depth := if c = '<' then depth + 1 else if c = '>' then depth - 1 else depth
      match splitArguments depth rest with
      | [] => [[c]]
      | part :: parts => (c :: part) :: parts

/-- A character of a type name. -/
def isNameChar (c : Char) : Bool :=
  Text.isLetter c || Text.isDigit c || c == '_' || c == '.'

/-- The type that a name with arguments denotes. -/
def ofName (classify : String → Option Kind) (expression name : String) (args : List TypeRef) :
    Except TypeError TypeRef :=
  if name.isEmpty || !name.toList.all isNameChar then
    .error (.invalidExpression expression .invalidName)
  else
    match Kind.ofContainerName? name with
    | some kind =>
      if !args.isEmpty && args.length != kind.arity then
        .error (.invalidExpression expression (.wrongArity name kind.arity))
      else .ok ⟨name, kind, args⟩
    | none =>
      if !args.isEmpty then .error (.invalidExpression expression .unexpectedArguments)
      else if Kind.scalarNames.contains name then .ok ⟨name, .scalar, []⟩
      else
        match classify name with
        | some kind => .ok ⟨name, kind, []⟩
        | none => .error (.unknownType name)

theorem length_le_of_mem_splitArguments {depth : Nat} {cs part : List Char}
    (h : part ∈ splitArguments depth cs) : part.length ≤ cs.length := by
  induction cs generalizing depth part with
  | nil => simp_all [splitArguments]
  | cons c rest ih =>
    simp only [splitArguments] at h
    split at h
    · rcases List.mem_cons.mp h with rfl | h
      · simp
      · exact Nat.le_succ_of_le (ih h)
    · split at h
      next => simp_all
      next first parts hrest =>
        rcases List.mem_cons.mp h with rfl | h
        · have := ih (hrest ▸ List.mem_cons_self)
          simpa using this
        · exact Nat.le_succ_of_le (ih (hrest ▸ List.mem_cons_of_mem _ h))

theorem length_trim_le (cs : List Char) : (Text.trim cs).length ≤ cs.length := by
  have left : (Text.trimLeft cs).length ≤ cs.length :=
    (List.dropWhile_sublist _).length_le
  have right (l : List Char) : (Text.trimRight l).length ≤ l.length := by
    simpa [Text.trimRight] using (List.dropWhile_sublist (l := l.reverse) Text.isBlank).length_le
  exact Nat.le_trans (right _) left

theorem length_of_dropSuffix? {tail cs rest : List Char}
    (h : Text.dropSuffix? tail cs = some rest) : rest.length + tail.length = cs.length := by
  unfold Text.dropSuffix? at h
  split at h
  next hs =>
    have hle := (List.isSuffixOf_iff_suffix.mp hs).length_le
    simp only [Option.some.injEq] at h
    subst h
    simp only [List.length_take]
    omega
  next => exact absurd h (by simp)

theorem length_of_splitOnce {mark : Char} {cs before after : List Char}
    (h : Text.splitOnce mark cs = some (before, after)) :
    before.length + after.length + 1 = cs.length := by
  induction cs generalizing before with
  | nil => simp [Text.splitOnce] at h
  | cons c rest ih =>
    simp only [Text.splitOnce] at h
    split at h
    next =>
      simp only [Option.some.injEq, Prod.mk.injEq] at h
      obtain ⟨rfl, rfl⟩ := h
      simp
    next =>
      obtain ⟨⟨b, a⟩, hrest, heq⟩ := Option.map_eq_some_iff.mp h
      simp only [Prod.mk.injEq] at heq
      obtain ⟨rfl, rfl⟩ := heq
      have := ih hrest
      simp only [List.length_cons]
      omega

/-- Reads a type expression.  Arguments are read before the name in front of them is looked at. -/
def parseChars (classify : String → Option Kind) (expression : List Char) :
    Except TypeError TypeRef :=
  match _hexpr : Text.trim expression with
  | [] => .error (.invalidExpression (String.ofList expression) .emptyType)
  | first :: others =>
    match _hcomponent : Text.dropSuffix? ['[', ']'] (first :: others) with
    | some component => do
      let element ← parseChars classify component
      return arrayOf element
    | none =>
      match _hopen : Text.splitOnce '<' (first :: others) with
      | some (name, after) =>
        match _hinner : Text.dropSuffix? ['>'] after with
        | none => .error (.invalidExpression (String.ofList expression) .unclosed)
        | some inner => do
          let args ← (splitArguments 0 inner).attach.mapM fun part => parseChars classify part.1
          ofName classify (String.ofList expression) (String.ofList (Text.trim name)) args
      | none =>
        ofName classify (String.ofList expression) (String.ofList (first :: others)) []
termination_by expression.length
decreasing_by
  · have h1 := length_of_dropSuffix? _hcomponent
    have h2 := length_trim_le expression
    simp only [_hexpr, List.length_cons, List.length_nil] at h1 h2
    omega
  · have h1 := length_le_of_mem_splitArguments part.2
    have h2 := length_of_dropSuffix? _hinner
    have h3 := length_of_splitOnce _hopen
    have h4 := length_trim_le expression
    simp only [_hexpr, List.length_cons, List.length_nil] at h2 h3 h4
    omega

/-- The type that an expression denotes; `classify` gives the kind of every other name. -/
def parse (classify : String → Option Kind) (expression : String) : Except TypeError TypeRef :=
  parseChars classify expression.toList

end TypeRef
end ChainMapping
